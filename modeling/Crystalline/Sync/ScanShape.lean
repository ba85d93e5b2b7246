import Mathlib.Data.List.Perm.Subperm
import Crystalline.Sync.EngramRows

/-!
# What a scan hands to the apply

Every vanished path is claimed by one move or is left to delete, and every file
found is at most one of a move's target, a changed file and an unchanged one.
-/

namespace Crystalline.Sync

open Keyed
open Remote (Path Sha)

/-- The classification after some of the hashed files: the vanished paths are
shared out among the moves' sources and what remains, the files seen among the
moves' targets and the changes. -/
structure Classified.Shares (stamps : Stamps) (vanished : List Path)
    (hashed : List (Scanned × Sha)) (out : Classified) : Prop where
  claimed : (out.moves.map Prod.fst ++ out.remaining).Perm vanished
  taken : (out.moves.map Prod.snd ++ out.changed.map fun change => change.scanned.path).Subperm
    (hashed.map fun file => file.1.path)
  move : ∀ ends ∈ out.moves, stamps.lookup ends.2 = none ∧
    ∃ file ∈ hashed, file.1.path = ends.2 ∧
      ∃ stamp, stamps.lookup ends.1 = some stamp ∧ stamp.sha256 = file.2
  change : ∀ change ∈ out.changed, ∃ sha256, (change.scanned, sha256) ∈ hashed

namespace Classified.Shares

variable {stamps : Stamps} {vanished : List Path} {force : Bool}
  {hashed : List (Scanned × Sha)} {out : Classified}

theorem start (stamps : Stamps) (vanished : List Path) :
    Classified.Shares stamps vanished [] ⟨[], [], vanished, 0⟩ where
  claimed := .refl _
  taken := List.nil_subperm
  move := by simp
  change := by simp

section

variable (shares : Classified.Shares stamps vanished hashed out)
include shares

theorem pass (file : Scanned × Sha) (unchanged : Nat) :
    Classified.Shares stamps vanished (hashed ++ [file]) { out with unchanged := unchanged } where
  claimed := shares.claimed
  taken := by
    rw [List.map_append]
    exact shares.taken.trans (List.sublist_append_left _ _).subperm
  move ends member := by
    obtain ⟨new, found, among, rest⟩ := shares.move ends member
    exact ⟨new, found, List.mem_append_left _ among, rest⟩
  change change member := by
    obtain ⟨sha256, among⟩ := shares.change change member
    exact ⟨sha256, List.mem_append_left _ among⟩

theorem alter (file : Scanned × Sha) (previously : Bool) :
    Classified.Shares stamps vanished (hashed ++ [file])
      { out with changed := out.changed ++ [⟨file.1, previously⟩] } where
  claimed := shares.claimed
  taken := by
    simp only [List.map_append, List.map_cons, List.map_nil, ← List.append_assoc]
    exact shares.taken.append (List.Subperm.refl _)
  move ends member := by
    obtain ⟨new, found, among, rest⟩ := shares.move ends member
    exact ⟨new, found, List.mem_append_left _ among, rest⟩
  change change member := by
    rcases List.mem_append.mp member with earlier | here
    · obtain ⟨sha256, among⟩ := shares.change change earlier
      exact ⟨sha256, List.mem_append_left _ among⟩
    · obtain rfl := List.mem_singleton.mp here
      exact ⟨file.2, by simp⟩

/-- A new file takes the place of a vanished path of the same content. -/
theorem claim {file : Scanned × Sha} {source : Path} (new : stamps.lookup file.1.path = none)
    (twin : vanishedTwin stamps vanished out.remaining file.2 = some source) :
    Classified.Shares stamps vanished (hashed ++ [file])
      { out with
        remaining := out.remaining.erase source
        moves := out.moves ++ [(source, file.1.path)] } where
  claimed := by
    have found := List.find?_some twin
    simp only [Bool.and_eq_true, List.contains_iff_mem] at found
    refine List.Perm.trans ?_ shares.claimed
    simp only [List.map_append, List.map_cons, List.map_nil, List.append_assoc]
    exact (List.perm_cons_erase found.1).symm.append_left _
  taken := by
    simp only [List.map_append, List.map_cons, List.map_nil]
    refine List.Subperm.trans (List.Perm.subperm ?_)
      (shares.taken.append (List.Subperm.refl [file.1.path]))
    rw [List.append_assoc, List.append_assoc]
    exact List.perm_append_comm.append_left _
  move ends member := by
    rcases List.mem_append.mp member with earlier | here
    · obtain ⟨unseen, found, among, rest⟩ := shares.move ends earlier
      exact ⟨unseen, found, List.mem_append_left _ among, rest⟩
    · obtain rfl := List.mem_singleton.mp here
      have found := List.find?_some twin
      simp only [Bool.and_eq_true, Option.any_eq_true, decide_eq_true_eq] at found
      exact ⟨new, file, by simp, rfl, found.2⟩
  change change member := by
    obtain ⟨sha256, among⟩ := shares.change change member
    exact ⟨sha256, List.mem_append_left _ among⟩

end

theorem step (force : Bool) (shares : Classified.Shares stamps vanished hashed out)
    (file : Scanned × Sha) :
    Classified.Shares stamps vanished (hashed ++ [file])
      (classifyHashed stamps force vanished out file) := by
  unfold classifyHashed
  cases recorded : stamps.lookup file.1.path with
  | none =>
      dsimp only
      cases twin : vanishedTwin stamps vanished out.remaining file.2 with
      | none => exact shares.alter file false
      | some source => exact shares.claim recorded twin
  | some stamp =>
      dsimp only
      split
      · exact shares.pass file _
      · exact shares.alter file true

theorem run (files : List (Scanned × Sha)) (shares : Classified.Shares stamps vanished hashed out) :
    Classified.Shares stamps vanished (hashed ++ files)
      (files.foldl (classifyHashed stamps force vanished) out) := by
  induction files generalizing hashed out with
  | nil => simpa using shares
  | cons file files induction =>
      have next := induction (shares.step force file)
      rwa [List.append_assoc] at next

end Classified.Shares

variable {reader : Reader} {disk : Disk} {out : List (Scanned × Sha) × SyncReport}
  {scanned : Scanned}

theorem hashStep_ok {bytes : Bytes} (read : disk.read scanned.path = .ok bytes) :
    hashStep reader disk out scanned = (out.1 ++ [(scanned, reader.sha256 bytes)], out.2) := by
  unfold hashStep
  rw [read]

theorem hashStep_error {refused : IoError} (read : disk.read scanned.path = .error refused) :
    (hashStep reader disk out scanned).1 = out.1 := by
  unfold hashStep
  rw [read]

/-- The files that could be read, with their digests. -/
def hashedOf (reader : Reader) (disk : Disk) (files : List Scanned) : List (Scanned × Sha) :=
  files.filterMap fun scanned =>
    (disk.read scanned.path).toOption.map fun bytes => (scanned, reader.sha256 bytes)

theorem foldl_hashStep (reader : Reader) (disk : Disk) (files : List Scanned)
    (out : List (Scanned × Sha) × SyncReport) :
    (files.foldl (hashStep reader disk) out).1 = out.1 ++ hashedOf reader disk files := by
  induction files generalizing out with
  | nil => simp [hashedOf]
  | cons scanned files induction =>
      rw [List.foldl_cons, induction, hashedOf, hashedOf, List.filterMap_cons]
      cases read : disk.read scanned.path with
      | error refused => rw [hashStep_error read]; rfl
      | ok bytes =>
          rw [hashStep_ok read, List.append_assoc]
          rfl

theorem mem_hashedOf {files : List Scanned} {file : Scanned × Sha} :
    file ∈ hashedOf reader disk files ↔
      file.1 ∈ files ∧ ∃ bytes, disk.read file.1.path = .ok bytes ∧
        file.2 = reader.sha256 bytes := by
  obtain ⟨scanned, sha256⟩ := file
  rw [hashedOf, List.mem_filterMap]
  constructor
  · rintro ⟨other, member, found⟩
    cases read : disk.read other.path with
    | error refused =>
        rw [read] at found
        cases found
    | ok bytes =>
        rw [read] at found
        obtain ⟨rfl, rfl⟩ := Prod.mk.inj (Option.some.inj found)
        exact ⟨member, bytes, read, rfl⟩
  · rintro ⟨member, bytes, read, rfl⟩
    refine ⟨scanned, member, ?_⟩
    rw [read]
    rfl

theorem hashedOf_sublist (reader : Reader) (disk : Disk) (files : List Scanned) :
    ((hashedOf reader disk files).map Prod.fst).Sublist files := by
  induction files with
  | nil => exact .slnil
  | cons scanned files induction =>
      rw [hashedOf, List.filterMap_cons]
      cases disk.read scanned.path with
      | error refused => exact induction.cons _
      | ok bytes => exact induction.cons_cons _

section Classify

variable {reader : Reader} {disk : Disk} {orders : Orders} {stamps : Stamps}
  {current : Current} {vanished : List Path} {unreadable : List (Path × Failure)}
  {force : Bool}

/-- The files whose recorded stamp does not spare them the hashing. -/
def toHash (force : Bool) (stamps : Stamps) (current : Current) : List Scanned :=
  (current.entries.map Sigma.snd).filter fun scanned => !prefiltered force stamps scanned

/-- The files hashed, in the order their hashes arrive. -/
def arrived (reader : Reader) (disk : Disk) (orders : Orders) (force : Bool) (stamps : Stamps)
    (current : Current) : List (Scanned × Sha) :=
  hashedOf reader disk (arrange orders.hashed Scanned.path (toHash force stamps current))

/-- How the files hashed are classified. -/
def classified (reader : Reader) (disk : Disk) (orders : Orders) (force : Bool)
    (stamps : Stamps) (current : Current) (vanished : List Path) : Classified :=
  (arrived reader disk orders force stamps current).foldl
    (classifyHashed stamps force vanished) ⟨[], [], vanished, 0⟩

theorem classifyChanges_lists :
    (classifyChanges reader disk orders stamps current vanished unreadable force).moves =
        (classified reader disk orders force stamps current vanished).moves ∧
      (classifyChanges reader disk orders stamps current vanished unreadable force).deletes =
        (classified reader disk orders force stamps current vanished).remaining ∧
      (classifyChanges reader disk orders stamps current vanished unreadable force).changed =
        (classified reader disk orders force stamps current vanished).changed := by
  unfold classifyChanges classified arrived toHash
  dsimp only
  rw [foldl_hashStep]
  exact ⟨rfl, rfl, rfl⟩

theorem shares_classified :
    Classified.Shares stamps vanished (arrived reader disk orders force stamps current)
      (classified reader disk orders force stamps current vanished) :=
  (Classified.Shares.start stamps vanished).run _

/-- The files found, each under its own path. -/
def KeyedByPath (current : Current) : Prop :=
  ∀ path scanned, current.lookup path = some scanned → scanned.path = path

theorem mem_arrived (keyed : KeyedByPath current) {file : Scanned × Sha} :
    file ∈ arrived reader disk orders force stamps current ↔
      current.lookup file.1.path = some file.1 ∧ prefiltered force stamps file.1 = false ∧
        ∃ bytes, disk.read file.1.path = .ok bytes ∧ file.2 = reader.sha256 bytes := by
  rw [arrived, mem_hashedOf, mem_arrange, toHash, List.mem_filter, List.mem_map]
  constructor
  · rintro ⟨⟨⟨entry, member, same⟩, unlike⟩, read⟩
    have found := AList.mem_lookup_iff.mpr member
    have here := keyed entry.1 entry.2 found
    rw [same] at found here
    rw [← here] at found
    exact ⟨found, by simpa using unlike, read⟩
  · rintro ⟨found, unlike, read⟩
    exact ⟨⟨⟨⟨_, _⟩, AList.mem_lookup_iff.mp found, rfl⟩, by simpa using unlike⟩, read⟩

theorem arrived_nodup (keyed : KeyedByPath current) :
    ((arrived reader disk orders force stamps current).map fun file => file.1.path).Nodup := by
  have keys : (current.entries.map Sigma.fst).Nodup := current.nodupKeys
  have paths : (current.entries.map fun entry => entry.2.path).Nodup := by
    rwa [List.map_congr_left fun entry member =>
      keyed entry.1 entry.2 (AList.mem_lookup_iff.mpr member)]
  have hashable : ((toHash force stamps current).map Scanned.path).Nodup := by
    refine List.Nodup.sublist (List.filter_sublist.map _) ?_
    rwa [List.map_map]
  have arranged : ((arrange orders.hashed Scanned.path (toHash force stamps current)).map
      Scanned.path).Nodup := ((perm_arrange _ _ _).map _).nodup_iff.mpr hashable
  have hashed := (hashedOf_sublist reader disk
    (arrange orders.hashed Scanned.path (toHash force stamps current))).map Scanned.path
  rw [List.map_map] at hashed
  exact arranged.sublist hashed

/-- The files found and the recorded paths that vanished, as both fronts give
them to the classification. -/
structure Given (stamps : Stamps) (current : Current) (vanished : List Path) : Prop where
  keyed : KeyedByPath current
  distinct : vanished.Nodup
  recorded : ∀ path ∈ vanished, (stamps.lookup path).isSome
  apart : ∀ path ∈ vanished, current.lookup path = none

theorem nodup_of_subperm {Item : Type*} {left right : List Item} (sub : left.Subperm right)
    (distinct : right.Nodup) : left.Nodup := by
  obtain ⟨middle, perm, within⟩ := sub
  exact perm.nodup_iff.mp (distinct.sublist within)

/-- What a move of the scan is: a vanished path, and a new file whose bytes have
the recorded digest. -/
theorem move_of_classified (given : Given stamps current vanished) {ends : Path × Path}
    (member : ends ∈ (classified reader disk orders force stamps current vanished).moves) :
    ends.1 ∈ vanished ∧ stamps.lookup ends.2 = none ∧
      ∃ scanned bytes stamp, current.lookup ends.2 = some scanned ∧
        disk.read ends.2 = .ok bytes ∧ stamps.lookup ends.1 = some stamp ∧
        stamp.sha256 = reader.sha256 bytes := by
  have shares := @shares_classified reader disk orders stamps current vanished force
  have source : ends.1 ∈ vanished :=
    shares.claimed.mem_iff.mp (List.mem_append_left _ (List.mem_map_of_mem member))
  obtain ⟨new, file, among, same, stamp, recorded, digest⟩ := shares.move ends member
  obtain ⟨found, -, bytes, read, hash⟩ := (mem_arrived given.keyed).mp among
  rw [same] at found read
  exact ⟨source, new, file.1, bytes, stamp, found, read, recorded, digest.trans hash⟩

theorem change_of_classified (given : Given stamps current vanished) {change : PendingChange}
    (member : change ∈ (classified reader disk orders force stamps current vanished).changed) :
    current.lookup change.scanned.path = some change.scanned ∧
      prefiltered force stamps change.scanned = false ∧
      ∃ bytes, disk.read change.scanned.path = .ok bytes := by
  obtain ⟨sha256, among⟩ := shares_classified.change change member
  obtain ⟨found, unlike, bytes, read, -⟩ := (mem_arrived given.keyed).mp among
  exact ⟨found, unlike, bytes, read⟩

theorem vanished_of_classified {path : Path} :
    path ∈ vanished ↔
      path ∈ (classified reader disk orders force stamps current vanished).moves.map Prod.fst ∨
      path ∈ (classified reader disk orders force stamps current vanished).remaining := by
  rw [← List.mem_append]
  exact shares_classified.claimed.mem_iff.symm

/-- The scan both fronts hand on is well formed. -/
theorem wellFormed_classifyChanges (given : Given stamps current vanished) :
    (classifyChanges reader disk orders stamps current vanished unreadable force).WellFormed := by
  obtain ⟨moves, deletes, changed⟩ := @classifyChanges_lists reader disk orders stamps current
    vanished unreadable force
  have shares := @shares_classified reader disk orders stamps current vanished force
  have claimed := shares.claimed.nodup_iff.mpr given.distinct
  have taken := nodup_of_subperm shares.taken (arrived_nodup given.keyed)
  rw [List.nodup_append] at claimed taken
  constructor
  · rw [moves]
    exact claimed.1
  · rw [moves]
    exact taken.1
  · rw [deletes]
    exact claimed.2.1
  · rw [changed]
    exact taken.2.1
  · intro ends member
    rw [moves] at member
    exact given.recorded _ (move_of_classified given member).1
  · intro ends member
    rw [moves] at member
    exact (move_of_classified given member).2.1
  · intro path member
    rw [deletes] at member
    exact given.recorded _ (vanished_of_classified.mpr (.inr member))
  · intro path member source
    rw [deletes] at member
    rw [moves] at source
    exact claimed.2.2 path source path member rfl
  · intro change member
    rw [changed] at member
    have found := (change_of_classified given member).1
    rw [deletes, moves]
    refine ⟨fun deleted => ?_, fun source => ?_, fun target => ?_⟩
    · rw [given.apart _ (vanished_of_classified.mpr (.inr deleted))] at found
      cases found
    · rw [given.apart _ (vanished_of_classified.mpr (.inl source))] at found
      cases found
    · exact taken.2.2 _ target _ (List.mem_map_of_mem member) rfl

end Classify

namespace Found

variable {disk : Disk} {layout : DomainLayout}

theorem keyedByPath_insert {current : Current} (keyed : KeyedByPath current) (path : Path)
    (mtime : Int) (size : Nat) : KeyedByPath (current.insert path ⟨path, mtime, size⟩) := by
  intro other scanned found
  by_cases same : other = path
  · subst same
    rw [AList.lookup_insert] at found
    obtain rfl := Option.some.inj found
    rfl
  · rw [AList.lookup_insert_ne same] at found
    exact keyed other scanned found

/-- What one file of the walk adds to the engram files found. -/
theorem file_current (found : Found) (path : Path) :
    (found.file disk layout path).current = found.current ∨
      ∃ metadata, layout.classify path = .engram ∧ disk.metadata path = .ok metadata ∧
        (found.file disk layout path).current =
          found.current.insert path ⟨path, metadata.mtime, metadata.size⟩ := by
  unfold file
  cases layout.classify path with
  | engram =>
      cases disk.metadata path with
      | ok metadata => exact .inr ⟨metadata, rfl, rfl, rfl⟩
      | error refused => exact .inl rfl
  | engramAsset => cases disk.metadata path <;> exact .inl rfl
  | reserved => exact .inl rfl
  | hidden => exact .inl rfl
  | artifact => exact .inl rfl
  | other => exact .inl rfl
  | reflection file =>
      cases file with
      | page page => cases disk.metadata path <;> exact .inl rfl
      | pact => cases disk.metadata path <;> exact .inl rfl
      | threads page => cases disk.read path <;> exact .inl rfl
      | baseline page => exact .inl rfl
      | asset canonical => cases disk.metadata path <;> exact .inl rfl
      | other => exact .inl rfl

theorem item_current (found : Found) (item : WalkItem) :
    (found.item disk layout item).current = found.current ∨
      ∃ path metadata, layout.classify path = .engram ∧ disk.metadata path = .ok metadata ∧
        (found.item disk layout item).current =
          found.current.insert path ⟨path, metadata.mtime, metadata.size⟩ := by
  cases item with
  | failed path => exact .inl rfl
  | entry path isFile =>
      cases isFile with
      | false => exact .inl rfl
      | true =>
          rcases file_current found path with kept | ⟨metadata, classed, stat, added⟩
          · exact .inl kept
          · exact .inr ⟨path, metadata, classed, stat, added⟩

end Found

/-- The engram files found are keyed by their paths, and each was stat'd. -/
structure Found.Stated (disk : Disk) (layout : DomainLayout) (current : Current) : Prop where
  keyed : KeyedByPath current
  stated : ∀ path scanned, current.lookup path = some scanned →
    layout.classify path = .engram ∧ ∃ metadata, disk.metadata path = .ok metadata ∧
      scanned = ⟨path, metadata.mtime, metadata.size⟩

theorem survey_stated {layout : DomainLayout} {found : Found}
    (done : survey disk layout = .ok found) : Found.Stated disk layout found.current := by
  unfold survey at done
  cases walk : disk.walk layout with
  | error refused =>
      rw [walk] at done
      cases done
  | ok items =>
      rw [walk] at done
      obtain rfl := Except.ok.inj done
      refine (Passes.of_foldl _ _ _).keeps (fun found : Found => Found.Stated disk layout found.current)
        ?_ ⟨by simp [KeyedByPath, Found.nothing], by simp [Found.nothing]⟩
      rintro before item after - rfl stated
      rcases Found.item_current before item with kept | ⟨path, metadata, classed, stat, added⟩
      · rw [kept]
        exact stated
      · rw [added]
        refine ⟨Found.keyedByPath_insert stated.keyed _ _ _, fun other scanned found => ?_⟩
        by_cases same : other = path
        · subst same
          rw [AList.lookup_insert] at found
          exact ⟨classed, metadata, stat, (Option.some.inj found).symm⟩
        · rw [AList.lookup_insert_ne same] at found
          exact stated.stated other scanned found

section Domain

variable {reader : Reader} {layout : DomainLayout} {walked hashed : Disk} {orders : Orders}
  {stamps : Stamps} {force : Bool} {scan : DomainScan}

/-- The recorded paths the walk did not find. -/
def unfound (orders : Orders) (stamps : Stamps) (found : Found) : List Path :=
  arrange orders.recorded id
    (stamps.keys.filter fun path => !(found.current.lookup path).isSome)

variable {found : Found}

theorem mem_unfound {path : Path} :
    path ∈ unfound orders stamps found ↔
      (stamps.lookup path).isSome ∧ found.current.lookup path = none := by
  rw [unfound, mem_arrange, List.mem_filter, AList.lookup_isSome, AList.mem_keys]
  simp

theorem given_unfound (stated : Found.Stated walked layout found.current) :
    Given stamps found.current (unfound orders stamps found) where
  keyed := stated.keyed
  distinct := by
    refine (perm_arrange _ _ _).nodup_iff.mpr ?_
    exact stamps.keys_nodup.sublist List.filter_sublist
  recorded path member := (mem_unfound.mp member).1
  apart path member := (mem_unfound.mp member).2

/-- What the scan of a walk consists of. -/
theorem scanDomain_ok (done : scanDomain reader layout walked hashed orders stamps force =
    .ok scan) :
    ∃ found, survey walked layout = .ok found ∧
      scan = { classifyChanges reader hashed orders stamps found.current
          (unfound orders stamps found) [] force with
        assets := found.assets
        assetsComplete := true
        endsRebuild := force
        reflections := found.reflections
        reflectionAssets := found.reflectionAssets
        reflectionsComplete := !found.unreadReflections
        reflection := layout.reflection
        report := { (classifyChanges reader hashed orders stamps found.current
            (unfound orders stamps found) [] force).report with
          unread := (classifyChanges reader hashed orders stamps found.current
            (unfound orders stamps found) [] force).report.unread + found.unread } } := by
  unfold scanDomain at done
  cases surveyed : survey walked layout with
  | error refused =>
      rw [surveyed] at done
      cases done
  | ok found =>
      rw [surveyed] at done
      exact ⟨found, rfl, (Except.ok.inj done).symm⟩

end Domain

end Crystalline.Sync
