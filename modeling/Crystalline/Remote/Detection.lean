import Crystalline.Keyed.Edits
import Crystalline.Remote.LocalChanges

/-!
# What change detection reports

One relation says which changes detection reports of a tree and a base.  That
no path is reported twice, that no deletion is a phantom and that no edit is
missed are read off it.
-/

namespace Crystalline.Remote

open Text

namespace Detector

variable (detector : Detector)

/-- A file on disk that takes part. -/
def OnDisk (tree : Tree) (path : Path) (bytes : Bytes) : Prop :=
  tree.lookup path = some bytes ∧ detector.policy.takesPart path = true

/-- A base path that takes part. -/
def Listed (base : Snapshot) (path : Path) (stamp : BaseStamp) : Prop :=
  base.lookup path = some stamp ∧ detector.policy.takesPart path = true

/-- The only file on disk without a base entry that folds like a path. -/
structure SingleUnmatched (tree : Tree) (base : Snapshot) (path : Path) (bytes : Bytes)
    (alike : Path) : Prop where
  onDisk : detector.OnDisk tree path bytes
  unlisted : ∀ stamp, ¬ detector.Listed base path stamp
  folds : detector.foldCase path = detector.foldCase alike
  single : ∀ other content, detector.OnDisk tree other content →
    (∀ stamp, ¬ detector.Listed base other stamp) →
      detector.foldCase other = detector.foldCase alike → other = path

/-- A file under another spelling of a base path: no other base path, and no
other file without a base entry, folds like it, and the base path itself is not
on disk. -/
structure Adopts (tree : Tree) (base : Snapshot) (path : Path) (bytes : Bytes)
    (key : Path) (stamp : BaseStamp) : Prop where
  unmatched : detector.SingleUnmatched tree base path bytes key
  listed : detector.Listed base key stamp
  single : ∀ other otherStamp, detector.Listed base other otherStamp →
    detector.foldCase other = detector.foldCase key → other = key
  absent : ∀ content, ¬ detector.OnDisk tree key content

/-- A content small enough to be shared. -/
def Small (bytes : Bytes) : Prop := bytes.length ≤ maxSharedFileBytes

/-- The changes detection reports. -/
inductive Reports (tree : Tree) (base : Snapshot) : LocalChange → Prop where
  | modified {path bytes stamp} (onDisk : detector.OnDisk tree path bytes)
      (small : Small bytes) (listed : detector.Listed base path stamp)
      (changed : detector.unchanged path stamp bytes = false) :
      Reports tree base (.modified path (detector.sha256Hex bytes))
  | recased {path bytes key stamp} (adopts : detector.Adopts tree base path bytes key stamp)
      (small : Small bytes) (changed : detector.unchanged key stamp bytes = false) :
      Reports tree base (.modified key (detector.sha256Hex bytes))
  | added {path bytes} (onDisk : detector.OnDisk tree path bytes) (small : Small bytes)
      (unlisted : ∀ stamp, ¬ detector.Listed base path stamp)
      (fresh : ∀ key stamp, ¬ detector.Adopts tree base path bytes key stamp) :
      Reports tree base (.added path (detector.sha256Hex bytes))
  | deleted {path stamp} (listed : detector.Listed base path stamp)
      (absent : ∀ bytes, ¬ detector.OnDisk tree path bytes)
      (unadopted : ∀ file bytes, ¬ detector.Adopts tree base file bytes path stamp)
      (noTwin : ∀ other otherStamp, detector.Listed base other otherStamp →
        detector.foldCase other = detector.foldCase path →
          ∀ bytes, ¬ detector.OnDisk tree other bytes) :
      Reports tree base (.deleted path)

variable {detector} {tree : Tree} {base : Snapshot}

section Sides

variable {path : Path} {Value : Type} {bytes : Bytes} {stamp : BaseStamp}

theorem mem_entries {files : AList fun _ : Path => Value} {value : Value} :
    (path, value) ∈ files.entries.map (fun entry => (entry.1, entry.2)) ↔
      files.lookup path = some value := by
  rw [List.mem_map]
  constructor
  · rintro ⟨⟨name, content⟩, member, same⟩
    cases same
    exact AList.mem_lookup_iff.mpr member
  · intro found
    exact ⟨⟨path, value⟩, AList.mem_lookup_iff.mp found, rfl⟩

theorem nodup_entries (files : AList fun _ : Path => Value) :
    ((files.entries.map fun entry => (entry.1, entry.2)).map Prod.fst).Nodup := by
  rw [List.map_map]
  exact files.nodupKeys

@[simp] theorem mem_walk :
    (path, bytes) ∈ detector.walk tree ↔ detector.OnDisk tree path bytes := by
  rw [walk, List.mem_filter, mem_entries, OnDisk]
  constructor
  · rintro ⟨there, takes⟩
    exact ⟨there, (Bool.and_eq_true _ _ ▸ takes).2⟩
  · rintro ⟨there, takes⟩
    exact ⟨there, by simp [SharePolicy.takesPart_visible takes, takes]⟩

theorem walk_nodup : ((detector.walk tree).map Prod.fst).Nodup :=
  (nodup_entries tree).sublist ((List.filter_sublist).map Prod.fst)

@[simp] theorem mem_narrowed :
    (path, stamp) ∈ detector.narrowed base ↔ detector.Listed base path stamp := by
  rw [narrowed, List.mem_filter, mem_entries, Listed]

theorem narrowed_nodup : ((detector.narrowed base).map Prod.fst).Nodup :=
  (nodup_entries base).sublist ((List.filter_sublist).map Prod.fst)

theorem OnDisk.unique {bytes content : Bytes} (first : detector.OnDisk tree path bytes)
    (second : detector.OnDisk tree path content) : bytes = content :=
  Option.some.inj (first.1.symm.trans second.1)

theorem Listed.unique {stamp other : BaseStamp} (first : detector.Listed base path stamp)
    (second : detector.Listed base path other) : stamp = other :=
  Option.some.inj (first.1.symm.trans second.1)

theorem stampOf_narrowed :
    stampOf (detector.narrowed base) path = some stamp ↔ detector.Listed base path stamp := by
  rw [stampOf, Option.map_eq_some_iff]
  constructor
  · rintro ⟨⟨name, found⟩, isFound, rfl⟩
    have same : name = path := by simpa using List.find?_some isFound
    subst same
    exact mem_narrowed.mp (List.mem_of_find?_eq_some isFound)
  · intro listed
    cases found : (detector.narrowed base).find? fun entry => entry.1 = path with
    | none =>
        have missing := List.find?_eq_none.mp found _ (mem_narrowed.mpr listed)
        simp at missing
    | some entry =>
        obtain ⟨name, other⟩ := entry
        have same : name = path := by simpa using List.find?_some found
        subst same
        have here := mem_narrowed.mp (List.mem_of_find?_eq_some found)
        exact ⟨(name, other), rfl, here.unique listed⟩

theorem stampOf_narrowed_none :
    stampOf (detector.narrowed base) path = none ↔
      ∀ stamp, ¬ detector.Listed base path stamp := by
  rw [Option.eq_none_iff_forall_ne_some]
  simp only [ne_eq, stampOf_narrowed]

@[simp] theorem mem_seen :
    path ∈ (detector.walk tree).map Prod.fst ↔ ∃ bytes, detector.OnDisk tree path bytes := by
  simp

@[simp] theorem mem_unmatched :
    (path, bytes) ∈ unmatched (detector.narrowed base) (detector.walk tree) ↔
      detector.OnDisk tree path bytes ∧ ∀ stamp, ¬ detector.Listed base path stamp := by
  rw [unmatched, List.mem_filter, mem_walk, Option.isNone_iff_eq_none, stampOf_narrowed_none]

theorem unmatched_nodup :
    (unmatched (detector.narrowed base) (detector.walk tree)).Nodup :=
  (walk_nodup.of_map Prod.fst).filter _

theorem isLarge_eq_false {file : File} : isLarge file = false ↔ Small file.2 := by
  simp [isLarge, Small]

end Sides

section Passes

variable {bytes : Bytes}

/-- One file alone is counted at its fold exactly when no other folds alike. -/
theorem foldedDisk_eq_one {path : Path}
    (member : (path, bytes) ∈ unmatched (detector.narrowed base) (detector.walk tree)) :
    detector.foldedDisk (unmatched (detector.narrowed base) (detector.walk tree))
        (detector.foldCase path) = 1 ↔
      ∀ other content, detector.OnDisk tree other content →
        (∀ stamp, ¬ detector.Listed base other stamp) →
          detector.foldCase other = detector.foldCase path → other = path := by
  rw [foldedDisk, List.countP_eq_length_filter]
  constructor
  · intro one other content onDisk unlisted alike
    obtain ⟨only, isOnly⟩ := List.length_eq_one_iff.mp one
    have here : ∀ file : File,
        file ∈ unmatched (detector.narrowed base) (detector.walk tree) →
          detector.foldCase file.1 = detector.foldCase path → file = only := by
      intro file found folds
      have kept : file ∈ (unmatched (detector.narrowed base) (detector.walk tree)).filter
          fun file => detector.foldCase file.1 = detector.foldCase path :=
        List.mem_filter.mpr ⟨found, decide_eq_true folds⟩
      rw [isOnly] at kept
      exact List.mem_singleton.mp kept
    have left := here _ (mem_unmatched.mpr ⟨onDisk, unlisted⟩) alike
    have right := here _ member rfl
    exact congrArg Prod.fst (left.trans right.symm)
  · intro single
    rw [List.length_eq_one_iff]
    refine ⟨(path, bytes), Keyed.eq_singleton (unmatched_nodup.filter _) ?_ ?_⟩
    · exact List.mem_filter.mpr ⟨member, decide_eq_true rfl⟩
    · rintro ⟨other, content⟩ found
      obtain ⟨found, folds⟩ := List.mem_filter.mp found
      obtain ⟨onDisk, unlisted⟩ := mem_unmatched.mp found
      have same : other = path := single other content onDisk unlisted (of_decide_eq_true folds)
      subst same
      rw [onDisk.unique (mem_unmatched.mp member).1]

variable {stamp : BaseStamp}

/-- One base path alone folds alike exactly when the others do not. -/
theorem foldedBase_eq_singleton {folded key : Path} :
    detector.foldedBase (detector.narrowed base) folded = [(key, stamp)] ↔
      detector.Listed base key stamp ∧ detector.foldCase key = folded ∧
        ∀ other otherStamp, detector.Listed base other otherStamp →
          detector.foldCase other = folded → other = key := by
  rw [foldedBase]
  constructor
  · intro isOnly
    have member : (key, stamp) ∈ (detector.narrowed base).filter fun entry =>
        detector.foldCase entry.1 = folded := by rw [isOnly]; exact List.mem_singleton_self _
    obtain ⟨listed, folds⟩ := List.mem_filter.mp member
    refine ⟨mem_narrowed.mp listed, of_decide_eq_true folds, ?_⟩
    intro other otherStamp otherListed alike
    have found : (other, otherStamp) ∈ (detector.narrowed base).filter fun entry =>
        detector.foldCase entry.1 = folded :=
      List.mem_filter.mpr ⟨mem_narrowed.mpr otherListed, decide_eq_true alike⟩
    rw [isOnly] at found
    exact congrArg Prod.fst (List.mem_singleton.mp found)
  · rintro ⟨listed, folds, single⟩
    apply Keyed.eq_singleton ((narrowed_nodup.of_map Prod.fst).filter _)
    · exact List.mem_filter.mpr ⟨mem_narrowed.mpr listed, decide_eq_true folds⟩
    · rintro ⟨other, otherStamp⟩ found
      obtain ⟨found, alike⟩ := List.mem_filter.mp found
      have otherListed := mem_narrowed.mp found
      have same : other = key := single other otherStamp otherListed (of_decide_eq_true alike)
      subst same
      rw [otherListed.unique listed]

/-- The case-folding pass decides adoption. -/
theorem adopts_iff {path key : Path}
    (member : (path, bytes) ∈ unmatched (detector.narrowed base) (detector.walk tree)) :
    detector.adopts (detector.narrowed base) ((detector.walk tree).map Prod.fst)
        (unmatched (detector.narrowed base) (detector.walk tree)) (path, bytes) =
          some (key, stamp) ↔
      detector.Adopts tree base path bytes key stamp := by
  obtain ⟨onDisk, unlisted⟩ := mem_unmatched.mp member
  have counted := foldedDisk_eq_one member
  constructor
  · intro claims
    unfold adopts at claims
    split at claims
    · rename_i entry only
      split at claims
      · rename_i guards
        cases claims
        rw [Bool.and_eq_true, decide_eq_true_eq] at guards
        obtain ⟨listed, folds, alone⟩ := foldedBase_eq_singleton.mp only
        refine ⟨⟨onDisk, unlisted, folds.symm, ?_⟩, listed, ?_, ?_⟩
        · intro other content otherOnDisk otherUnlisted alike
          exact counted.mp guards.1 other content otherOnDisk otherUnlisted
            (alike.trans folds)
        · intro other otherStamp otherListed alike
          exact alone other otherStamp otherListed (alike.trans folds)
        · intro content keyOnDisk
          have seen : key ∈ (detector.walk tree).map Prod.fst := mem_seen.mpr ⟨_, keyOnDisk⟩
          simp [seen] at guards
      · cases claims
    · cases claims
  · intro adopted
    have only := foldedBase_eq_singleton.mpr ⟨adopted.listed, adopted.unmatched.folds.symm,
      fun other otherStamp listed alike =>
        adopted.single other otherStamp listed (alike.trans adopted.unmatched.folds)⟩
    have one := counted.mpr fun other content otherOnDisk otherUnlisted alike =>
      adopted.unmatched.single other content otherOnDisk otherUnlisted
        (alike.trans adopted.unmatched.folds)
    have unseen : key ∉ (detector.walk tree).map Prod.fst := by
      rw [mem_seen]
      rintro ⟨content, there⟩
      exact adopted.absent content there
    unfold adopts
    simp only [only]
    rw [if_pos]
    simpa [one] using unseen

/-- A base path spelled another way on disk is one of several that fold alike. -/
theorem removedButForCase_iff {path : Path} (listed : detector.Listed base path stamp)
    (absent : ∀ bytes, ¬ detector.OnDisk tree path bytes) :
    detector.removedButForCase (detector.narrowed base) ((detector.walk tree).map Prod.fst)
        path = true ↔
      ∃ other otherStamp bytes, detector.Listed base other otherStamp ∧
        detector.foldCase other = detector.foldCase path ∧
          detector.OnDisk tree other bytes := by
  have spelled : ∀ other, other ∈ (detector.foldedBase (detector.narrowed base)
      (detector.foldCase path)).map Prod.fst ↔
        ∃ otherStamp, detector.Listed base other otherStamp ∧
          detector.foldCase other = detector.foldCase path := by
    intro other
    simp [foldedBase]
  rw [removedButForCase, Bool.and_eq_true, List.any_eq_true]
  constructor
  · rintro ⟨-, other, isSpelling, seen⟩
    obtain ⟨otherStamp, otherListed, alike⟩ := (spelled other).mp isSpelling
    rw [List.contains_iff_mem, mem_seen] at seen
    obtain ⟨bytes, onDisk⟩ := seen
    exact ⟨other, otherStamp, bytes, otherListed, alike, onDisk⟩
  · rintro ⟨other, otherStamp, bytes, otherListed, alike, onDisk⟩
    have first := (spelled path).mpr ⟨stamp, listed, rfl⟩
    have second := (spelled other).mpr ⟨otherStamp, otherListed, alike⟩
    have different : path ≠ other := fun same => absent bytes (same ▸ onDisk)
    refine ⟨?_, other, second, ?_⟩
    · exact decide_eq_true (Keyed.one_lt_length first second different)
    · rw [List.contains_iff_mem, mem_seen]
      exact ⟨bytes, onDisk⟩

end Passes

variable {result : LocalChanges}

variable (detector tree base) in
/-- The base paths that files under another spelling adopt. -/
def adopted : List Path :=
  ((unmatched (detector.narrowed base) (detector.walk tree)).filterMap fun file =>
    (detector.adopts (detector.narrowed base) ((detector.walk tree).map Prod.fst)
      (unmatched (detector.narrowed base) (detector.walk tree)) file).map
        fun entry => (entry.1, file.1)).map Prod.fst

variable (detector tree base) in
/-- The three passes of a detection that succeeds. -/
structure Passes (result : LocalChanges) where
  renamed : List (Option LocalChange)
  deleted : List (Option LocalChange)
  adoptions : (unmatched (detector.narrowed base) (detector.walk tree)).mapM
    (detector.adoption (detector.narrowed base) ((detector.walk tree).map Prod.fst)
      (unmatched (detector.narrowed base) (detector.walk tree))) = .ok renamed
  deletions : ((detector.narrowed base).map Prod.fst).mapM
    (detector.deletion tree (detector.narrowed base) ((detector.walk tree).map Prod.fst)
      (detector.adopted tree base)) = .ok deleted
  changes : result.changes.Perm
    ((detector.walk tree).filterMap (detector.modification (detector.narrowed base)) ++
      renamed.reduceOption ++ deleted.reduceOption)

theorem passes (succeeded : detector.detectLocalChangesWith tree base = .ok result) :
    Nonempty (detector.Passes tree base result) := by
  unfold detectLocalChangesWith at succeeded
  simp only [bind, Except.bind] at succeeded
  split at succeeded
  · cases succeeded
  · rename_i renamed adoptions
    split at succeeded
    · cases succeeded
    · rename_i deleted deletions
      cases succeeded
      exact ⟨⟨renamed, deleted, adoptions, deletions, List.perm_insertionSort _ _⟩⟩

theorem mem_adopted {key : Path} :
    key ∈ detector.adopted tree base ↔
      ∃ path bytes stamp, detector.Adopts tree base path bytes key stamp := by
  simp only [adopted, List.mem_map, List.mem_filterMap]
  constructor
  · rintro ⟨_, ⟨⟨path, bytes⟩, member, isAdopted⟩, rfl⟩
    obtain ⟨⟨name, stamp⟩, adopts, rfl⟩ := Option.map_eq_some_iff.mp isAdopted
    exact ⟨path, bytes, stamp, (adopts_iff member).mp adopts⟩
  · rintro ⟨path, bytes, stamp, adopts⟩
    have member := mem_unmatched.mpr ⟨adopts.unmatched.onDisk, adopts.unmatched.unlisted⟩
    exact ⟨(key, path), ⟨(path, bytes), member, by rw [(adopts_iff member).mpr adopts]; rfl⟩,
      rfl⟩

variable {path : Path} {bytes : Bytes} {change : LocalChange} {stamp : BaseStamp}
  {answer : Option LocalChange}

theorem modification_iff :
    detector.modification (detector.narrowed base) (path, bytes) = some change ↔
      Small bytes ∧ ∃ stamp, detector.Listed base path stamp ∧
        detector.unchanged path stamp bytes = false ∧
          change = .modified path (detector.sha256Hex bytes) := by
  cases large : isLarge (path, bytes) with
  | true =>
      have tooLarge : ¬ Small bytes := by simpa [Small, isLarge] using large
      simp [modification, large, tooLarge]
  | false =>
      have small : Small bytes := isLarge_eq_false.mp large
      rw [modification, if_neg (by simp [large]), Option.bind_eq_some_iff]
      constructor
      · rintro ⟨stamp, isStamp, reported⟩
        split at reported
        · cases reported
        · rename_i changed
          cases reported
          exact ⟨small, stamp, stampOf_narrowed.mp isStamp, by simpa using changed, rfl⟩
      · rintro ⟨-, stamp, listed, changed, rfl⟩
        exact ⟨stamp, stampOf_narrowed.mpr listed, by simp [changed]⟩

/-- The case-folding pass reports additions and edits under another spelling. -/
theorem adoption_reports
    (member : (path, bytes) ∈ unmatched (detector.narrowed base) (detector.walk tree)) :
    Keyed.report (detector.adoption (detector.narrowed base)
        ((detector.walk tree).map Prod.fst)
        (unmatched (detector.narrowed base) (detector.walk tree)) (path, bytes)) =
          some change ↔
      Small bytes ∧
        ((∃ key stamp, detector.Adopts tree base path bytes key stamp ∧
            detector.unchanged key stamp bytes = false ∧
              change = .modified key (detector.sha256Hex bytes)) ∨
          ((∀ key stamp, ¬ detector.Adopts tree base path bytes key stamp) ∧
            change = .added path (detector.sha256Hex bytes))) := by
  have decides : ∀ key stamp,
      detector.adopts (detector.narrowed base) ((detector.walk tree).map Prod.fst)
          (unmatched (detector.narrowed base) (detector.walk tree)) (path, bytes) =
            some (key, stamp) ↔ detector.Adopts tree base path bytes key stamp :=
    fun _ _ => adopts_iff member
  unfold adoption
  cases claim : detector.adopts (detector.narrowed base) ((detector.walk tree).map Prod.fst)
      (unmatched (detector.narrowed base) (detector.walk tree)) (path, bytes) with
  | none =>
      have fresh : ∀ key stamp, ¬ detector.Adopts tree base path bytes key stamp := by
        intro key stamp adopts
        rw [← decides, claim] at adopts
        cases adopts
      cases large : isLarge (path, bytes) with
      | true =>
          have tooLarge : ¬ Small bytes := by simpa [Small, isLarge] using large
          simp [Keyed.report, tooLarge]
      | false =>
          have small : Small bytes := isLarge_eq_false.mp large
          simp only [Keyed.report, Bool.false_eq_true, if_false, Option.some.injEq]
          constructor
          · rintro rfl
            exact ⟨small, .inr ⟨fresh, rfl⟩⟩
          · rintro ⟨-, ⟨key, stamp, adopts, -⟩ | ⟨-, rfl⟩⟩
            · exact absurd adopts (fresh key stamp)
            · rfl
  | some entry =>
      obtain ⟨key, stamp⟩ := entry
      have adopts : detector.Adopts tree base path bytes key stamp := (decides key stamp).mp claim
      have only : ∀ other otherStamp, detector.Adopts tree base path bytes other otherStamp →
          key = other ∧ stamp = otherStamp := by
        intro other otherStamp otherAdopts
        rw [← decides, claim] at otherAdopts
        cases otherAdopts
        exact ⟨rfl, rfl⟩
      cases large : isLarge (path, bytes) with
      | true =>
          have tooLarge : ¬ Small bytes := by simpa [Small, isLarge] using large
          simp [Keyed.report, tooLarge]
      | false =>
          have small : Small bytes := isLarge_eq_false.mp large
          cases same : detector.unchanged key stamp bytes with
          | true =>
              simp only [Keyed.report, same, if_true, Bool.false_eq_true, if_false]
              constructor
              · intro reported
                cases reported
              · rintro ⟨-, ⟨other, otherStamp, otherAdopts, changed, -⟩ | ⟨fresh, -⟩⟩
                · obtain ⟨rfl, rfl⟩ := only other otherStamp otherAdopts
                  rw [same] at changed
                  cases changed
                · exact absurd adopts (fresh key stamp)
          | false =>
              simp only [Keyed.report, same, Bool.false_eq_true, if_false, Option.some.injEq]
              constructor
              · rintro rfl
                exact ⟨small, .inl ⟨key, stamp, adopts, same, rfl⟩⟩
              · rintro ⟨-, ⟨other, otherStamp, otherAdopts, -, rfl⟩ | ⟨fresh, -⟩⟩
                · obtain ⟨rfl, rfl⟩ := only other otherStamp otherAdopts
                  rfl
                · exact absurd adopts (fresh key stamp)

theorem small_of_adopts {path key : Path} (adopts : detector.Adopts tree base path bytes key stamp)
    (succeeded : detector.adoption (detector.narrowed base)
      ((detector.walk tree).map Prod.fst)
      (unmatched (detector.narrowed base) (detector.walk tree)) (path, bytes) = .ok answer) :
    Small bytes := by
  have member : (path, bytes) ∈ unmatched (detector.narrowed base) (detector.walk tree) :=
    mem_unmatched.mpr ⟨adopts.unmatched.onDisk, adopts.unmatched.unlisted⟩
  have claim := (adopts_iff member).mpr adopts
  rw [adoption, claim] at succeeded
  cases large : isLarge (path, bytes) with
  | false => exact isLarge_eq_false.mp large
  | true => simp [large] at succeeded

/-- The subtraction reports the base paths that are gone. -/
theorem deletion_reports (listed : detector.Listed base path stamp)
    (succeeded : detector.deletion tree (detector.narrowed base)
      ((detector.walk tree).map Prod.fst) (detector.adopted tree base) path = .ok answer)
    (change : LocalChange) :
    answer = some change ↔
      change = .deleted path ∧ (∀ bytes, ¬ detector.OnDisk tree path bytes) ∧
        (∀ file bytes, ¬ detector.Adopts tree base file bytes path stamp) ∧
          ∀ other otherStamp, detector.Listed base other otherStamp →
            detector.foldCase other = detector.foldCase path →
              ∀ bytes, ¬ detector.OnDisk tree other bytes := by
  unfold deletion at succeeded
  split at succeeded
  · rename_i stands
    cases succeeded
    simp only [Bool.or_eq_true, List.contains_iff_mem, mem_seen, mem_adopted] at stands
    constructor
    · intro reported
      cases reported
    · rintro ⟨-, absent, unadopted, noTwin⟩
      rw [removedButForCase_iff listed absent] at stands
      obtain (⟨bytes, onDisk⟩ | ⟨file, bytes, otherStamp, adopts⟩) |
        ⟨other, otherStamp, bytes, otherListed, alike, onDisk⟩ := stands
      · exact absurd onDisk (absent bytes)
      · have same := adopts.listed.unique listed
        subst same
        exact absurd adopts (unadopted file bytes)
      · exact absurd onDisk (noTwin other otherStamp otherListed alike bytes)
  · rename_i gone
    simp only [Bool.or_eq_true, List.contains_iff_mem, not_or] at gone
    obtain ⟨⟨unseen, unclaimed⟩, alone⟩ := gone
    have absent : ∀ bytes, ¬ detector.OnDisk tree path bytes := by
      intro bytes onDisk
      exact unseen (mem_seen.mpr ⟨bytes, onDisk⟩)
    have unadopted : ∀ file bytes, ¬ detector.Adopts tree base file bytes path stamp := by
      intro file bytes adopts
      exact unclaimed (mem_adopted.mpr ⟨file, bytes, stamp, adopts⟩)
    have noTwin : ∀ other otherStamp, detector.Listed base other otherStamp →
        detector.foldCase other = detector.foldCase path →
          ∀ bytes, ¬ detector.OnDisk tree other bytes := by
      intro other otherStamp otherListed alike bytes onDisk
      exact alone ((removedButForCase_iff listed absent).mpr
        ⟨other, otherStamp, bytes, otherListed, alike, onDisk⟩)
    dsimp only at succeeded
    split at succeeded
    · cases succeeded
    · split at succeeded
      · cases succeeded
        constructor
        · intro reported
          cases reported
          exact ⟨rfl, absent, unadopted, noTwin⟩
        · rintro ⟨rfl, -⟩
          rfl
      · cases succeeded
      · cases succeeded

/-- Where several base paths fold alike, a deletion needs a disk without the fold. -/
theorem unfolded_of_deletion (listed : detector.Listed base path stamp)
    (succeeded : detector.deletion tree (detector.narrowed base)
      ((detector.walk tree).map Prod.fst) (detector.adopted tree base) path =
        .ok (some change)) {other : Path} {otherStamp : BaseStamp}
    (otherListed : detector.Listed base other otherStamp)
    (alike : detector.foldCase other = detector.foldCase path) (different : other ≠ path)
    {file : Path} (onDisk : detector.OnDisk tree file bytes) :
    detector.foldCase file ≠ detector.foldCase path := by
  intro folds
  unfold deletion at succeeded
  split at succeeded
  · cases succeeded
  · have several : 1 < ((detector.foldedBase (detector.narrowed base)
        (detector.foldCase path)).map Prod.fst).length := by
      have spelled : ∀ name nameStamp, detector.Listed base name nameStamp →
          detector.foldCase name = detector.foldCase path →
            name ∈ (detector.foldedBase (detector.narrowed base)
              (detector.foldCase path)).map Prod.fst := by
        intro name nameStamp nameListed nameAlike
        rw [List.mem_map]
        exact ⟨(name, nameStamp), List.mem_filter.mpr
          ⟨mem_narrowed.mpr nameListed, decide_eq_true nameAlike⟩, rfl⟩
      exact Keyed.one_lt_length (spelled other otherStamp otherListed alike)
        (spelled path stamp listed rfl) different
    have folded : detector.foldCase path ∈
        ((detector.walk tree).map Prod.fst).map detector.foldCase :=
      List.mem_map.mpr ⟨file, mem_seen.mpr ⟨bytes, onDisk⟩, folds⟩
    dsimp only at succeeded
    rw [if_pos] at succeeded
    · cases succeeded
    · rw [Bool.and_eq_true, List.contains_iff_mem]
      exact ⟨folded, decide_eq_true several⟩

theorem removal_of_report (member : path ∈ (detector.narrowed base).map Prod.fst)
    (reported : Keyed.report (detector.deletion tree (detector.narrowed base)
      ((detector.walk tree).map Prod.fst) (detector.adopted tree base) path) = some change) :
    change = .deleted path ∧ ∃ stamp, detector.Listed base path stamp ∧
      (∀ bytes, ¬ detector.OnDisk tree path bytes) ∧
        ∀ file bytes, ¬ detector.Adopts tree base file bytes path stamp := by
  obtain ⟨⟨name, stamp⟩, listed, rfl⟩ := List.mem_map.mp member
  obtain ⟨rfl, absent, unadopted, -⟩ := (deletion_reports (mem_narrowed.mp listed)
    (Keyed.report_eq_some.mp reported) change).mp rfl
  exact ⟨rfl, stamp, mem_narrowed.mp listed, absent, unadopted⟩

/-- Detection reports just these changes. -/
theorem mem_changes (succeeded : detector.detectLocalChangesWith tree base = .ok result) :
    change ∈ result.changes ↔ detector.Reports tree base change := by
  obtain ⟨run⟩ := passes succeeded
  rw [run.changes.mem_iff, List.mem_append, List.mem_append,
    Keyed.reduceOption_of_mapM run.adoptions, Keyed.reduceOption_of_mapM run.deletions,
    List.mem_filterMap, List.mem_filterMap, List.mem_filterMap]
  constructor
  · rintro ((⟨⟨path, bytes⟩, member, reported⟩ | ⟨⟨path, bytes⟩, member, reported⟩) |
      ⟨path, member, reported⟩)
    · obtain ⟨small, stamp, listed, changed, rfl⟩ := modification_iff.mp reported
      exact .modified (mem_walk.mp member) small listed changed
    · obtain ⟨small, ⟨key, stamp, adopts, changed, rfl⟩ | ⟨fresh, rfl⟩⟩ :=
        (adoption_reports member).mp reported
      · exact .recased adopts small changed
      · exact .added (mem_unmatched.mp member).1 small (mem_unmatched.mp member).2 fresh
    · obtain ⟨answer, isAnswer⟩ := Keyed.ok_of_mapM run.deletions member
      obtain ⟨⟨name, stamp⟩, listed, rfl⟩ := List.mem_map.mp member
      rw [isAnswer] at reported
      obtain ⟨rfl, absent, unadopted, noTwin⟩ :=
        (deletion_reports (mem_narrowed.mp listed) isAnswer change).mp reported
      exact .deleted (mem_narrowed.mp listed) absent unadopted noTwin
  · intro reports
    cases reports with
    | @modified path bytes stamp onDisk small listed changed =>
        exact .inl (.inl ⟨(path, bytes), mem_walk.mpr onDisk,
          modification_iff.mpr ⟨small, stamp, listed, changed, rfl⟩⟩)
    | @recased path bytes key stamp adopts small changed =>
        have member := mem_unmatched.mpr ⟨adopts.unmatched.onDisk, adopts.unmatched.unlisted⟩
        exact .inl (.inr ⟨(path, bytes), member, (adoption_reports member).mpr
          ⟨small, .inl ⟨key, stamp, adopts, changed, rfl⟩⟩⟩)
    | @added path bytes onDisk small unlisted fresh =>
        have member := mem_unmatched.mpr ⟨onDisk, unlisted⟩
        exact .inl (.inr ⟨(path, bytes), member, (adoption_reports member).mpr
          ⟨small, .inr ⟨fresh, rfl⟩⟩⟩)
    | @deleted path stamp listed absent unadopted noTwin =>
        have member : path ∈ (detector.narrowed base).map Prod.fst :=
          List.mem_map.mpr ⟨(path, stamp), mem_narrowed.mpr listed, rfl⟩
        obtain ⟨answer, isAnswer⟩ := Keyed.ok_of_mapM run.deletions member
        refine .inr ⟨path, member, ?_⟩
        rw [isAnswer]
        exact (deletion_reports listed isAnswer _).mpr ⟨rfl, absent, unadopted, noTwin⟩

/-- What is reported of a file is not in the base, or is its base path. -/
theorem path_of_adoption
    (member : (path, bytes) ∈ unmatched (detector.narrowed base) (detector.walk tree))
    (reported : Keyed.report (detector.adoption (detector.narrowed base)
        ((detector.walk tree).map Prod.fst)
        (unmatched (detector.narrowed base) (detector.walk tree)) (path, bytes)) =
          some change) :
    (change.path = path ∧ ∀ key stamp, ¬ detector.Adopts tree base path bytes key stamp) ∨
      ∃ stamp, detector.Adopts tree base path bytes change.path stamp := by
  obtain ⟨-, ⟨key, stamp, adopts, -, rfl⟩ | ⟨fresh, rfl⟩⟩ := (adoption_reports member).mp reported
  · exact .inr ⟨stamp, adopts⟩
  · exact .inl ⟨rfl, fresh⟩

theorem Adopts.same_file {first second key : Path} {bytes content : Bytes}
    {stamp other : BaseStamp} (one : detector.Adopts tree base first bytes key stamp)
    (two : detector.Adopts tree base second content key other) : first = second :=
  two.unmatched.single first bytes one.unmatched.onDisk one.unmatched.unlisted
    one.unmatched.folds

section

variable (succeeded : detector.detectLocalChangesWith tree base = .ok result)
include succeeded

/-- No path is reported twice. -/
theorem nodup_changes : (result.changes.map LocalChange.path).Nodup := by
  obtain ⟨run⟩ := passes succeeded
  rw [(run.changes.map LocalChange.path).nodup_iff, List.map_append, List.map_append,
    Keyed.reduceOption_of_mapM run.adoptions, Keyed.reduceOption_of_mapM run.deletions]
  have edits : (((detector.walk tree).filterMap
      (detector.modification (detector.narrowed base))).map LocalChange.path).Nodup := by
    apply Keyed.nodup_reports (walk_nodup.of_map Prod.fst)
    rintro ⟨path, bytes⟩ member ⟨other, content⟩ otherMember one two first second same
    obtain ⟨-, stamp, -, -, rfl⟩ := modification_iff.mp first
    obtain ⟨-, otherStamp, -, -, rfl⟩ := modification_iff.mp second
    obtain rfl : path = other := same
    rw [(mem_walk.mp member).unique (mem_walk.mp otherMember)]
  have renames : (((unmatched (detector.narrowed base) (detector.walk tree)).filterMap
      fun file => Keyed.report (detector.adoption (detector.narrowed base)
        ((detector.walk tree).map Prod.fst)
        (unmatched (detector.narrowed base) (detector.walk tree)) file)).map
          LocalChange.path).Nodup := by
    apply Keyed.nodup_reports unmatched_nodup
    rintro ⟨path, bytes⟩ member ⟨other, content⟩ otherMember one two first second same
    suffices path = other by
      subst this
      rw [(mem_unmatched.mp member).1.unique (mem_unmatched.mp otherMember).1]
    obtain ⟨here, -⟩ | ⟨stamp, adopts⟩ := path_of_adoption member first
    · obtain ⟨there, -⟩ | ⟨stamp, otherAdopts⟩ := path_of_adoption otherMember second
      · exact here.symm.trans (same.trans there)
      · exact absurd (same.symm.trans here ▸ otherAdopts.listed)
          ((mem_unmatched.mp member).2 stamp)
    · obtain ⟨there, -⟩ | ⟨otherStamp, otherAdopts⟩ := path_of_adoption otherMember second
      · exact absurd (same.trans there ▸ adopts.listed) ((mem_unmatched.mp otherMember).2 stamp)
      · exact (same ▸ adopts).same_file otherAdopts
  have removals : ((((detector.narrowed base).map Prod.fst).filterMap
      fun path => Keyed.report (detector.deletion tree (detector.narrowed base)
        ((detector.walk tree).map Prod.fst) (detector.adopted tree base) path)).map
          LocalChange.path).Nodup := by
    apply Keyed.nodup_reports narrowed_nodup
    intro path member other otherMember one two first second same
    obtain ⟨rfl, -⟩ := removal_of_report member first
    obtain ⟨rfl, -⟩ := removal_of_report otherMember second
    exact same
  rw [List.nodup_append, List.nodup_append]
  refine ⟨⟨edits, renames, ?_⟩, removals, ?_⟩
  · intro left leftMember right rightMember same
    obtain ⟨change, reported, rfl⟩ := List.mem_map.mp leftMember
    obtain ⟨other, otherReported, rfl⟩ := List.mem_map.mp rightMember
    obtain ⟨⟨path, bytes⟩, member, reported⟩ := List.mem_filterMap.mp reported
    obtain ⟨⟨file, content⟩, otherMember, otherReported⟩ := List.mem_filterMap.mp otherReported
    obtain ⟨-, stamp, listed, -, rfl⟩ := modification_iff.mp reported
    obtain ⟨there, -⟩ | ⟨otherStamp, adopts⟩ := path_of_adoption otherMember otherReported
    · exact (mem_unmatched.mp otherMember).2 stamp (same.trans there ▸ listed)
    · exact adopts.absent bytes (same ▸ mem_walk.mp member)
  · intro left leftMember right rightMember same
    obtain ⟨other, otherReported, rfl⟩ := List.mem_map.mp rightMember
    obtain ⟨gone, goneMember, removed⟩ := List.mem_filterMap.mp otherReported
    obtain ⟨rfl, stamp, listed, absent, unadopted⟩ := removal_of_report goneMember removed
    rcases List.mem_append.mp leftMember with edited | renamed
    · obtain ⟨change, reported, rfl⟩ := List.mem_map.mp edited
      obtain ⟨⟨path, bytes⟩, member, reported⟩ := List.mem_filterMap.mp reported
      obtain ⟨-, -, -, -, rfl⟩ := modification_iff.mp reported
      obtain rfl : path = gone := same
      exact absent bytes (mem_walk.mp member)
    · obtain ⟨change, reported, rfl⟩ := List.mem_map.mp renamed
      obtain ⟨⟨path, bytes⟩, member, reported⟩ := List.mem_filterMap.mp reported
      obtain ⟨here, -⟩ | ⟨otherStamp, adopts⟩ := path_of_adoption member reported
      · exact (mem_unmatched.mp member).2 stamp (here.symm.trans same ▸ listed)
      · rw [same] at adopts
        exact unadopted path bytes (adopts.listed.unique listed ▸ adopts)

theorem unfolded_of_deleted (reported : .deleted path ∈ result.changes) {other : Path}
    {otherStamp : BaseStamp} (otherListed : detector.Listed base other otherStamp)
    (alike : detector.foldCase other = detector.foldCase path) (different : other ≠ path)
    {file : Path} (onDisk : detector.OnDisk tree file bytes) :
    detector.foldCase file ≠ detector.foldCase path := by
  have reports := (mem_changes succeeded).mp reported
  cases reports with
  | @deleted _ stamp listed absent unadopted noTwin =>
      obtain ⟨run⟩ := passes succeeded
      obtain ⟨answer, isAnswer⟩ := Keyed.ok_of_mapM run.deletions
        (List.mem_map.mpr ⟨(path, stamp), mem_narrowed.mpr listed, rfl⟩)
      have isDeletion := (deletion_reports listed isAnswer (.deleted path)).mpr
        ⟨rfl, absent, unadopted, noTwin⟩
      rw [isDeletion] at isAnswer
      exact unfolded_of_deletion listed isAnswer otherListed alike different onDisk

end

end Detector

end Crystalline.Remote
