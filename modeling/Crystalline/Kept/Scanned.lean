import Crystalline.Kept.Keeping

/-!
# What a listing finds

A listing meets every file below a kind folder once, and what it says of the file follows
from the names on the way to it.
-/

namespace Crystalline.Kept

open Text

variable {Time : Type} {host : Host Time} {idle : Place → Bool} {files : Files}

variable {dir : Place} {entry : Entry} {place : Place} {rel : Text} {kept : KeptText Time}
  {folder : DomainFolder}

theorem mem_namesIn {name : Text} :
    name ∈ namesIn files dir ↔ files.node (dir ++ [name]) ≠ none := by
  rw [namesIn, List.mem_dedup, List.mem_map]
  constructor
  · rintro ⟨place, member, rfl⟩
    obtain ⟨-, held⟩ := List.mem_filter.mp member
    simp only [Bool.and_eq_true, decide_eq_true_eq] at held
    obtain ⟨⟨named, rfl⟩, stands⟩ := held
    obtain ⟨front, last, rfl⟩ := (List.eq_nil_or_concat place).resolve_left named
    rw [List.concat_eq_append, List.dropLast_concat, List.getLastD_concat]
    rw [List.concat_eq_append] at stands
    exact Option.isSome_iff_ne_none.mp stands
  · intro stands
    refine ⟨dir ++ [name], List.mem_filter.mpr ⟨files.listed _ stands, ?_⟩,
      List.getLastD_concat ..⟩
    rw [List.dropLast_concat, Option.isSome_iff_ne_none.mpr stands]
    simp

theorem mem_dirEntries :
    entry ∈ dirEntries idle files dir ↔
      ∃ name, files.node (dir ++ [name]) ≠ none ∧
        entry = entryAt idle files (dir ++ [name]) := by
  rw [dirEntries, List.mem_map]
  simp only [List.mem_insertionSort, mem_namesIn]
  exact exists_congr fun name => and_congr_right fun _ => eq_comm

theorem nodup_dirEntries (dir : Place) :
    ((dirEntries idle files dir).map Entry.path).Nodup := by
  rw [dirEntries, List.map_map]
  refine List.Nodup.map (fun left right same => ?_) ?_
  · exact (List.cons.inj (List.append_cancel_left same)).1
  · rw [(List.perm_insertionSort _ _).nodup_iff]
    exact List.nodup_dedup _

@[simp] theorem entryAt_name (dir : Place) (name : Text) :
    (entryAt idle files (dir ++ [name])).name = name :=
  List.getLastD_concat ..

@[simp] theorem entryAt_path (place : Place) : (entryAt idle files place).path = place := rfl

theorem entryAt_isDir : (entryAt idle files place).isDir = true ↔ files.node place = some .folder :=
  decide_eq_true_iff

theorem entryAt_isFile : (entryAt idle files place).isFile = true ↔ files.text? place ≠ none :=
  Option.isSome_iff_ne_none

theorem node_of_text (text : files.text? place ≠ none) :
    files.node place ≠ none ∧ files.node place ≠ some .folder := by
  constructor
  · intro none
    rw [Files.text?, none] at text
    exact text rfl
  · intro folder
    rw [Files.text?, folder] at text
    exact text rfl

theorem folder_above {name : Text} {back : Place} (present : back ≠ [])
    (text : files.text? (dir ++ [name] ++ back) ≠ none) :
    files.node (dir ++ [name]) = some .folder :=
  (Files.isFolder_of_prefix present (node_of_text text).1).resolve_left (by simp)

/-- The path of names, from `rel` on. -/
def relOf (rel : Text) (names : List Text) : Text := names.foldl childOf rel

/-- A file below `dir` is listed as what its entry gives. -/
def Listed (host : Host Time) (idle : Place → Bool) (files : Files) (place : KindFolder)
    (dir : Place) (rel : Text) (above : List Text) (kept : KeptText Time) : Prop :=
  ∃ name, files.text? (dir ++ above ++ [name]) ≠ none ∧
    kept ∈ walkFile host files place (relOf rel above)
      (entryAt idle files (dir ++ above ++ [name]))

theorem mem_walk {place : KindFolder} {deep : Nat} :
    kept ∈ walk host idle files place deep dir rel ↔
      ∃ above, above.length < deep ∧ Listed host idle files place dir rel above kept := by
  induction deep generalizing dir rel with
  | zero => exact ⟨nofun, fun ⟨_, short, _⟩ => absurd short (Nat.not_lt_zero _)⟩
  | succ deep induction =>
      rw [walk, List.mem_flatMap]
      constructor
      · rintro ⟨entry, member, found⟩
        obtain ⟨name, -, rfl⟩ := mem_dirEntries.mp member
        split at found
        · obtain ⟨above, short, last, text, listed⟩ := induction.mp found
          rw [entryAt_path] at text listed
          rw [entryAt_name] at listed
          refine ⟨name :: above, Nat.succ_lt_succ short, last, ?_, ?_⟩
          · rwa [List.append_assoc dir, List.singleton_append] at text
          · rwa [List.append_assoc dir, List.singleton_append] at listed
        · split at found
          · cases found
          · rename_i isFile
            refine ⟨[], Nat.succ_pos _, name, ?_, ?_⟩
            · rw [List.append_nil, ← entryAt_isFile]
              simpa using isFile
            · rw [List.append_nil]
              exact found
      · rintro ⟨above, short, last, text, listed⟩
        cases above with
        | nil =>
            rw [List.append_nil] at text listed
            have stands := node_of_text text
            refine ⟨_, mem_dirEntries.mpr ⟨last, stands.1, rfl⟩, ?_⟩
            rw [if_neg (mt entryAt_isDir.mp stands.2), entryAt_isFile.mpr text]
            exact listed
        | cons name above =>
            have same : dir ++ name :: above = dir ++ [name] ++ above := by simp
            rw [same] at text listed
            have folder : files.node (dir ++ [name]) = some .folder := by
              rw [List.append_assoc (dir ++ [name])] at text
              exact folder_above (by simp) text
            refine ⟨_, mem_dirEntries.mpr ⟨name, by simp [folder], rfl⟩, ?_⟩
            rw [if_pos (entryAt_isDir.mpr folder), entryAt_path, entryAt_name]
            exact induction.mpr ⟨above, Nat.lt_of_succ_lt_succ short, last, text, listed⟩

theorem length_le_depth (stands : files.node place ≠ none) : place.length ≤ depth files := by
  have among := files.listed place stands
  rw [depth]
  generalize files.places = places at among
  induction places with
  | nil => cases among
  | cons other places induction =>
      rw [List.foldr_cons]
      rcases List.mem_cons.mp among with rfl | later
      · exact Nat.le_max_left _ _
      · exact Nat.le_trans (induction later) (Nat.le_max_right _ _)

theorem mem_scanKinds :
    kept ∈ scanKinds host idle files folder dir ↔
      ∃ kind above, Listed host idle files ⟨folder, kind⟩ (dir ++ [kind.asStr]) [] above kept := by
  rw [scanKinds, List.mem_flatMap]
  constructor
  · rintro ⟨entry, member, found⟩
    obtain ⟨name, -, rfl⟩ := mem_dirEntries.mp member
    split at found
    · cases found
    · rename_i kind same
      split at found
      · obtain ⟨above, -, listed⟩ := mem_walk.mp found
        rw [entryAt_path] at listed
        rw [entryAt_name] at same
        rw [KeptKind.fromFolder_eq_some_iff.mp same] at listed
        exact ⟨kind, above, listed⟩
      · cases found
  · rintro ⟨kind, above, listed⟩
    have found := listed
    obtain ⟨last, text, -⟩ := found
    have folder : files.node (dir ++ [kind.asStr]) = some .folder := by
      rw [List.append_assoc (dir ++ [_])] at text
      exact folder_above (by simp) text
    have long := length_le_depth (node_of_text text).1
    refine ⟨_, mem_dirEntries.mpr ⟨kind.asStr, by simp [folder], rfl⟩, ?_⟩
    rw [entryAt_name, KeptKind.fromFolder_eq_some_iff.mpr rfl]
    simp only
    rw [if_pos (entryAt_isDir.mpr folder), entryAt_path]
    refine mem_walk.mpr ⟨above, ?_, listed⟩
    simp only [List.length_append, List.length_singleton] at long
    omega

/-- The folders between a domain's folder and its kinds. -/
def ownerPart : Option Text → Place
  | none => []
  | some owner => [draftDir, owner]

/-- The folder's path inside the kept folder. -/
def ownerWithin (within : Text) : Option Text → Text
  | none => within
  | some owner => within ++ '/' :: draftDir ++ '/' :: owner

theorem mem_scanDomain {domain : Text} {removed : Bool} {within : Text} :
    kept ∈ scanDomain host idle files domain removed within dir ↔
      ∃ owner kind above,
        Listed host idle files ⟨⟨domain, removed, owner, ownerWithin within owner⟩, kind⟩
          (dir ++ ownerPart owner ++ [kind.asStr]) [] above kept := by
  rw [scanDomain, List.mem_append]
  constructor
  · rintro (drafts | own)
    · obtain ⟨entry, member, found⟩ := List.mem_flatMap.mp drafts
      obtain ⟨name, -, rfl⟩ := mem_dirEntries.mp member
      split at found
      · rename_i isDraft
        obtain ⟨owned, among, found⟩ := List.mem_flatMap.mp found
        obtain ⟨owner, -, rfl⟩ := mem_dirEntries.mp among
        rw [entryAt_name, Bool.and_eq_true, decide_eq_true_eq] at isDraft
        split at found
        · obtain ⟨kind, above, listed⟩ := mem_scanKinds.mp found
          rw [entryAt_path, entryAt_path, entryAt_name, isDraft.2] at listed
          refine ⟨some owner, kind, above, ?_⟩
          rwa [List.append_assoc dir] at listed
        · cases found
      · cases found
    · obtain ⟨kind, above, listed⟩ := mem_scanKinds.mp own
      refine ⟨none, kind, above, ?_⟩
      rw [ownerPart, List.append_nil]
      exact listed
  · rintro ⟨owner, kind, above, listed⟩
    cases owner with
    | none =>
        rw [ownerPart, List.append_nil] at listed
        exact .inr (mem_scanKinds.mpr ⟨kind, above, listed⟩)
    | some owner =>
        have parted : dir ++ ownerPart (some owner) = dir ++ [draftDir] ++ [owner] := by
          rw [ownerPart, List.append_assoc]
          rfl
        rw [parted] at listed
        have found := listed
        obtain ⟨last, text, -⟩ := found
        have inner : files.node (dir ++ [draftDir] ++ [owner]) = some .folder := by
          rw [List.append_assoc (dir ++ [draftDir] ++ [owner]),
            List.append_assoc (dir ++ [draftDir] ++ [owner])] at text
          exact folder_above (by simp) text
        have outer : files.node (dir ++ [draftDir]) = some .folder := by
          rw [List.append_assoc, List.append_assoc, List.append_assoc (dir ++ [draftDir])] at text
          exact folder_above (by simp) text
        refine .inl (List.mem_flatMap.mpr
          ⟨_, mem_dirEntries.mpr ⟨draftDir, by simp [outer], rfl⟩, ?_⟩)
        rw [entryAt_name, entryAt_path, entryAt_isDir.mpr outer, Bool.true_and, decide_eq_true rfl,
          if_pos rfl]
        refine List.mem_flatMap.mpr
          ⟨_, mem_dirEntries.mpr ⟨owner, by rw [inner]; exact Option.some_ne_none _, rfl⟩, ?_⟩
        rw [if_pos (entryAt_isDir.mpr inner), entryAt_name, entryAt_path]
        exact mem_scanKinds.mpr ⟨kind, above, listed⟩

/-- The folder a domain's kept texts stand in, its own or the one they were set aside to. -/
inductive Top (clock : Clock Time) : Place → Text → Bool → Text → Prop where
  | own {domain : Text} (plain : startsWith domain ['.'] = false) :
      Top clock [domain] domain false domain
  | removed {folder domain : Text} (was : removedDomain clock folder = some domain) :
      Top clock [removedDir, folder] domain true (removedDir ++ '/' :: folder)

/-- A kind folder and where it stands. -/
inductive Shelf (clock : Clock Time) : KindFolder → Place → Prop where
  | intro {top : Place} {domain within : Text} {removed : Bool}
      (top_ : Top clock top domain removed within) (owner : Option Text) (kind : KeptKind) :
      Shelf clock ⟨⟨domain, removed, owner, ownerWithin within owner⟩, kind⟩
        (top ++ ownerPart owner ++ [kind.asStr])

theorem mem_scanEntries :
    kept ∈ (dirEntries idle files []).flatMap (scanEntry host idle files) ↔
      ∃ top domain removed within, Top host.clock top domain removed within ∧
        kept ∈ scanDomain host idle files domain removed within top := by
  rw [List.mem_flatMap]
  constructor
  · rintro ⟨entry, member, found⟩
    obtain ⟨name, -, rfl⟩ := mem_dirEntries.mp member
    rw [scanEntry] at found
    split at found
    · cases found
    · split at found
      · rename_i isRemoved
        obtain ⟨inner, among, found⟩ := List.mem_flatMap.mp found
        obtain ⟨folder, -, rfl⟩ := mem_dirEntries.mp among
        split at found
        · rename_i domain was
          split at was
          · rw [entryAt_name] at was isRemoved
            rw [entryAt_name, entryAt_path, entryAt_path, isRemoved] at found
            exact ⟨_, domain, true, _, .removed was, found⟩
          · cases was
        · cases found
      · split at found
        · rename_i plain
          rw [entryAt_name] at plain found
          exact ⟨_, name, false, _, .own (by simpa using plain), found⟩
        · cases found
  · rintro ⟨top, domain, removed, within, top_, found⟩
    have listed := found
    obtain ⟨owner, kind, above, last, text, -⟩ := mem_scanDomain.mp found
    have below : files.text? (top ++ (ownerPart owner ++ [kind.asStr] ++ above ++ [last])) ≠
        none := by
      simpa only [List.append_assoc] using text
    cases top_ with
    | own plain =>
        have folder : files.node [domain] = some .folder := @folder_above files [] domain _
          (by simp) below
        refine ⟨_, mem_dirEntries.mpr ⟨domain, by simp [folder], rfl⟩,
          ?_⟩
        have other : domain ≠ removedDir := by
          rintro rfl
          exact absurd plain (by decide)
        rw [scanEntry, entryAt_name, List.nil_append, entryAt_isDir.mpr folder, if_neg other, plain]
        exact listed
    | @removed folder _ was =>
        have outer : files.node [removedDir] = some .folder := @folder_above files [] removedDir
          (folder :: (ownerPart owner ++ [kind.asStr] ++ above ++ [last])) (by simp) below
        have inner : files.node [removedDir, folder] = some .folder :=
          @folder_above files [removedDir] folder _ (by simp) below
        refine ⟨_, mem_dirEntries.mpr ⟨removedDir, by simp [outer], rfl⟩, ?_⟩
        have standing : files.node ([removedDir] ++ [folder]) ≠ none := by
          rw [List.singleton_append, inner]
          exact Option.some_ne_none _
        have shown : (entryAt idle files ([removedDir] ++ [folder])).isDir = true :=
          entryAt_isDir.mpr inner
        rw [scanEntry, entryAt_name, List.nil_append, entryAt_isDir.mpr outer, if_pos rfl]
        refine List.mem_flatMap.mpr ⟨_, mem_dirEntries.mpr ⟨folder, standing, rfl⟩, ?_⟩
        rw [entryAt_path, if_pos shown, entryAt_name, was]
        exact listed

theorem mem_scan :
    kept ∈ scan host idle files ↔
      ∃ place dir above, Shelf host.clock place dir ∧
        Listed host idle files place dir [] above kept := by
  rw [scan, List.mem_insertionSort, mem_scanEntries]
  constructor
  · rintro ⟨top, domain, removed, within, top_, found⟩
    obtain ⟨owner, kind, above, listed⟩ := mem_scanDomain.mp found
    exact ⟨_, _, above, .intro top_ owner kind, listed⟩
  · rintro ⟨place, dir, above, ⟨top_, owner, kind⟩, listed⟩
    exact ⟨_, _, _, _, top_, mem_scanDomain.mpr ⟨owner, kind, above, listed⟩⟩

theorem file_walkFile {place : KindFolder} (found : kept ∈ walkFile host files place rel entry) :
    kept.file = entry.path := by
  rw [walkFile] at found
  split at found
  · cases found
  · rw [List.mem_singleton.mp found]

theorem Listed.file {place : KindFolder} {above : List Text}
    (listed : Listed host idle files place dir rel above kept) :
    ∃ name, kept.file = dir ++ above ++ [name] := by
  obtain ⟨name, -, found⟩ := listed
  exact ⟨name, file_walkFile found⟩

theorem nodup_flatMap {part : Entry → List (KeptText Time)}
    (each : ∀ entry ∈ dirEntries idle files dir, ((part entry).map KeptText.file).Nodup)
    (below : ∀ entry ∈ dirEntries idle files dir, ∀ kept ∈ part entry,
      entry.path <+: kept.file) :
    (((dirEntries idle files dir).flatMap part).map KeptText.file).Nodup := by
  rw [List.map_flatMap, List.nodup_flatMap]
  refine ⟨each, ?_⟩
  have paths := List.pairwise_map.mp (@nodup_dirEntries idle files dir)
  refine paths.imp_of_mem fun {left right} first second apart => ?_
  intro file one other
  obtain ⟨kept, found, rfl⟩ := List.mem_map.mp one
  obtain ⟨twin, among, same⟩ := List.mem_map.mp other
  have before := below left first kept found
  have behind := below right second twin among
  rw [same] at behind
  obtain ⟨name, -, rfl⟩ := mem_dirEntries.mp first
  obtain ⟨naming, -, rfl⟩ := mem_dirEntries.mp second
  exact apart ((List.prefix_of_prefix_length_le before behind (by simp)).eq_of_length (by simp))

theorem nodup_walk (place : KindFolder) (deep : Nat) (dir : Place) (rel : Text) :
    ((walk host idle files place deep dir rel).map KeptText.file).Nodup := by
  induction deep generalizing dir rel with
  | zero => exact List.nodup_nil
  | succ deep induction =>
      rw [walk]
      refine nodup_flatMap (fun entry _ => ?_) fun entry _ kept found => ?_
      · split_ifs
        · exact induction _ _
        · exact List.nodup_nil
        · rw [walkFile]
          split
          · exact List.nodup_nil
          · exact List.nodup_singleton _
      · split_ifs at found
        · obtain ⟨above, -, listed⟩ := mem_walk.mp found
          obtain ⟨name, same⟩ := listed.file
          rw [same, List.append_assoc]
          exact List.prefix_append _ _
        · cases found
        · rw [file_walkFile found]

theorem nodup_scanKinds (folder : DomainFolder) (dir : Place) :
    ((scanKinds host idle files folder dir).map KeptText.file).Nodup := by
  rw [scanKinds]
  refine nodup_flatMap (fun entry _ => ?_) fun entry _ kept found => ?_
  · split
    · exact List.nodup_nil
    · split_ifs
      · exact nodup_walk ..
      · exact List.nodup_nil
  · split at found
    · cases found
    · split_ifs at found
      · obtain ⟨above, -, listed⟩ := mem_walk.mp found
        obtain ⟨name, same⟩ := listed.file
        rw [same, List.append_assoc]
        exact List.prefix_append _ _
      · cases found

theorem below_scanKinds (found : kept ∈ scanKinds host idle files folder dir) :
    ∃ kind : KeptKind, dir ++ [kind.asStr] <+: kept.file := by
  obtain ⟨kind, above, listed⟩ := mem_scanKinds.mp found
  obtain ⟨name, same⟩ := listed.file
  refine ⟨kind, ?_⟩
  rw [same, List.append_assoc]
  exact List.prefix_append _ _

theorem nodup_scanDomain (domain : Text) (removed : Bool) (within : Text) (dir : Place) :
    ((scanDomain host idle files domain removed within dir).map KeptText.file).Nodup := by
  -- whatever a draft folder holds stands below it
  have drafted {entry : Entry} {kept : KeptText Time}
      (found : kept ∈ if entry.isDir && decide (entry.name = draftDir) then
        (dirEntries idle files entry.path).flatMap fun owner =>
          if owner.isDir then
            scanKinds host idle files
              ⟨domain, removed, some owner.name, within ++ '/' :: draftDir ++ '/' :: owner.name⟩
              owner.path
          else []
        else []) : entry.name = draftDir ∧ entry.path <+: kept.file := by
    split_ifs at found with isDraft
    · rw [Bool.and_eq_true, decide_eq_true_eq] at isDraft
      obtain ⟨owner, member, found⟩ := List.mem_flatMap.mp found
      split_ifs at found
      · obtain ⟨kind, below⟩ := below_scanKinds found
        obtain ⟨name, -, rfl⟩ := mem_dirEntries.mp member
        refine ⟨isDraft.2, List.IsPrefix.trans ?_ below⟩
        rw [entryAt_path, List.append_assoc]
        exact List.prefix_append _ _
      · cases found
    · cases found
  rw [scanDomain, List.map_append]
  refine List.nodup_append.mpr ⟨?_, nodup_scanKinds _ _, ?_⟩
  · refine nodup_flatMap (fun entry _ => ?_) fun entry _ kept found => (drafted found).2
    split_ifs
    · refine nodup_flatMap (fun owner _ => ?_) fun owner _ kept found => ?_
      · split_ifs
        · exact nodup_scanKinds _ _
        · exact List.nodup_nil
      · split_ifs at found
        · obtain ⟨kind, below⟩ := below_scanKinds found
          exact (List.prefix_append _ _).trans below
        · cases found
    · exact List.nodup_nil
  · intro file first other second same
    obtain ⟨kept, found, rfl⟩ := List.mem_map.mp first
    obtain ⟨twin, among, rfl⟩ := List.mem_map.mp second
    obtain ⟨entry, member, found⟩ := List.mem_flatMap.mp found
    obtain ⟨named, below⟩ := drafted found
    obtain ⟨kind, beside⟩ := below_scanKinds among
    obtain ⟨name, -, rfl⟩ := mem_dirEntries.mp member
    rw [entryAt_name] at named
    rw [same] at below
    have alike := (List.prefix_of_prefix_length_le below beside (by simp)).eq_of_length (by simp)
    exact kind.asStr_ne_draftDir (named ▸ (List.cons.inj (List.append_cancel_left alike)).1.symm)

/-- No file is listed twice. -/
theorem nodup_scan : ((scan host idle files).map KeptText.file).Nodup := by
  have sorted : (scan host idle files).Perm
      ((dirEntries idle files []).flatMap (scanEntry host idle files)) :=
    List.perm_insertionSort _ _
  have domainBelow {domain within : Text} {removed : Bool} {dir : Place} {kept : KeptText Time}
      (found : kept ∈ scanDomain host idle files domain removed within dir) :
      dir <+: kept.file := by
    obtain ⟨owner, kind, above, listed⟩ := mem_scanDomain.mp found
    obtain ⟨name, same⟩ := listed.file
    rw [same, List.append_assoc, List.append_assoc, List.append_assoc]
    exact List.prefix_append _ _
  rw [(sorted.map _).nodup_iff]
  refine nodup_flatMap (fun entry _ => ?_) fun entry member kept found => ?_
  · rw [scanEntry]
    split_ifs
    · exact List.nodup_nil
    · refine nodup_flatMap (fun folder _ => ?_) fun folder _ kept found => ?_
      · split
        · exact nodup_scanDomain ..
        · exact List.nodup_nil
      · split at found
        · exact domainBelow found
        · cases found
    · exact nodup_scanDomain ..
    · exact List.nodup_nil
  · rw [scanEntry] at found
    split_ifs at found
    · cases found
    · obtain ⟨folder, among, found⟩ := List.mem_flatMap.mp found
      obtain ⟨name, -, rfl⟩ := mem_dirEntries.mp among
      split at found
      · exact (List.prefix_append _ _).trans (domainBelow found)
      · cases found
    · exact domainBelow found
    · cases found

end Crystalline.Kept
