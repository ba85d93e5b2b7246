import Crystalline.Remote.PullSound
import Crystalline.Remote.Upstream

/-!
# The compare and the tarball agree

Both lists of edits are described by the two trees: an edit for each domain
path whose content differs and whose new content is small or gone.  The compare
lists the removals of files the manifest never listed as well, and the merge
loop does nothing with those.
-/

namespace Crystalline.Remote

open Text

section Paths

variable {sub : Option Text} {path : Text} {rel : Path}

theorem underDomain_eq_some :
    underDomain sub path = some rel ↔ path = toRepoRelative rel sub := by
  cases sub with
  | none => simp [underDomain, toRepoRelative]
  | some sub => exact stripPrefix_eq_some_iff

theorem toDomainRelative_eq_some :
    toDomainRelative path sub = some rel ↔
      path = toRepoRelative rel sub ∧ isExcludedPath rel = false := by
  rw [toDomainRelative, Option.filter_eq_some_iff, underDomain_eq_some, Bool.not_eq_true']

theorem toRepoRelative_injective {other : Path}
    (same : toRepoRelative rel sub = toRepoRelative other sub) : rel = other := by
  cases sub with
  | none => exact same
  | some sub => exact List.append_cancel_left same

/-- A path the archive reads as it stands: no backslash, no empty component, no
component that leaves the root or names a drive. -/
structure IsPlainPath (path : Text) : Prop where
  noBackslash : '\\' ∉ path
  components : ∀ component ∈ components path, component ≠ [] ∧ isEscape component = false

theorem withSlashes_of_plain (noBackslash : '\\' ∉ path) : withSlashes path = path := by
  rw [withSlashes]
  conv_rhs => rw [← List.map_id path]
  apply List.map_congr_left
  intro char member
  have other : char ≠ '\\' := by
    rintro rfl
    exact noBackslash member
  rw [if_neg other, id]

theorem ne_nil_of_plain (plain : IsPlainPath (toRepoRelative rel sub)) : rel ≠ [] := by
  rintro rfl
  have last : ([] : Text) ∈ components (toRepoRelative [] sub) := by
    cases sub with
    | none => simp [toRepoRelative, components]
    | some sub =>
        rw [toRepoRelative, components, domainPrefix, List.append_nil,
          List.splitOn_append_cons_self]
        simp
  exact (plain.components [] last).1 rfl

end Paths

section Tarball

variable (sub : Option Text)

/-- The domain file an entry of an archive holds. -/
def fileOf (entry : TarEntry) : Option (Path × Bytes) :=
  if entry.isFile then
    ((splitOnce ['/'] entry.path).bind fun parts => toDomainRelative parts.2 sub).map
      fun rel => (rel, entry.content)
  else none

/-- A file among the extracted, or among the ones left out. -/
def place (found : ExtractedFiles) (file : Path × Bytes) : ExtractedFiles :=
  if maxSharedFileBytes < file.2.length then (found.1, found.2 ++ [(file.1, file.2.length)])
  else (found.1.insert file.1 file.2, found.2)

/-- An archive of a tree: its regular files are the tree's, below one top
directory. -/
structure Archives (top : Text) (tree : Tree) (entries : List TarEntry) : Prop where
  plainTop : '/' ∉ top ∧ '\\' ∉ top ∧ isEscape top = false
  files : ((entries.filter TarEntry.isFile).map fun entry => (entry.path, entry.content)).Perm
    (tree.entries.map fun file => (top ++ '/' :: file.1, file.2))

variable {sub} {top : Text} {tree : Tree} {entries : List TarEntry} {entry : TarEntry}
  {content : Bytes}

theorem Archives.mem (archives : Archives top tree entries) (member : entry ∈ entries)
    (isFile : entry.isFile = true) :
    ∃ path, entry.path = top ++ '/' :: path ∧ tree.lookup path = some entry.content := by
  have listed : (entry.path, entry.content) ∈
      (entries.filter TarEntry.isFile).map fun entry => (entry.path, entry.content) :=
    List.mem_map.mpr ⟨entry, List.mem_filter.mpr ⟨member, isFile⟩, rfl⟩
  obtain ⟨⟨path, content⟩, found, same⟩ := List.mem_map.mp (archives.files.mem_iff.mp listed)
  obtain ⟨samePath, sameContent⟩ := Prod.mk.inj same
  exact ⟨path, samePath.symm, sameContent ▸ AList.mem_lookup_iff.mpr found⟩

variable (sub) in
/-- An entry of an archive of plain paths is extracted as the file it holds. -/
theorem extractEntry_plain (archives : Archives top tree entries)
    (plain : ∀ path, tree.lookup path ≠ none → IsPlainPath path) (member : entry ∈ entries)
    (found : ExtractedFiles) :
    extractEntry sub found entry = .ok ((fileOf sub entry).elim found (place found)) := by
  unfold extractEntry fileOf
  cases isFile : entry.isFile with
  | false => rfl
  | true =>
      obtain ⟨path, isPath, isContent⟩ := archives.mem member isFile
      obtain ⟨noSlash, noBackslash, noEscape⟩ := archives.plainTop
      have isPlain := plain path (by simp [isContent])
      have kept : withSlashes entry.path = entry.path := by
        apply withSlashes_of_plain
        rw [isPath]
        simp [noBackslash, isPlain.noBackslash]
      have inside : ¬ (components entry.path).any isEscape = true := by
        rw [isPath, components, List.splitOn_append_cons_self, List.splitOn_eq_singleton noSlash,
          List.any_append, Bool.or_eq_true]
        rintro (escapes | escapes)
        · rw [List.any_cons, noEscape] at escapes
          cases escapes
        · obtain ⟨component, isComponent, escapes⟩ := List.any_eq_true.mp escapes
          rw [(isPlain.components component isComponent).2] at escapes
          cases escapes
      have cut : splitOnce ['/'] entry.path = some (top, path) := by
        rw [isPath]
        exact splitOnce_char_append noSlash path
      simp only [kept, inside, cut, Bool.not_true, Bool.false_eq_true, if_false, if_true,
        Option.bind_some]
      rw [toDomainRelative]
      cases under : underDomain sub path with
      | none => rfl
      | some rel =>
          rw [underDomain_eq_some.mp under] at isPlain
          have nonempty := ne_nil_of_plain isPlain
          cases excluded : isExcludedPath rel with
          | true => simp [Option.filter, excluded]
          | false =>
              simp only [Option.filter, excluded, nonempty, decide_false, Bool.or_self,
                Bool.false_eq_true, Bool.not_false, if_false, if_true, Option.map_some,
                Option.elim_some, place]
              split <;> rfl

variable (sub) in
/-- An archive of plain paths is extracted file by file. -/
theorem extractTarball_plain (archives : Archives top tree entries)
    (plain : ∀ path, tree.lookup path ≠ none → IsPlainPath path) :
    extractTarball entries sub =
      .ok ((entries.filterMap (fileOf sub)).foldl place (∅, [])) := by
  have steps : ∀ (rest : List TarEntry) (found : ExtractedFiles), (∀ entry ∈ rest, entry ∈ entries) →
      rest.foldlM (extractEntry sub) found =
        .ok ((rest.filterMap (fileOf sub)).foldl place found) := by
    intro rest
    induction rest with
    | nil => exact fun _ _ => rfl
    | cons entry rest induction =>
        intro found inside
        have here := extractEntry_plain sub archives plain (inside entry (by simp)) found
        have later := fun found' => induction found' fun other member =>
          inside other (List.mem_cons_of_mem _ member)
        rw [List.foldlM_cons, here]
        cases isFile : fileOf sub entry with
        | none =>
            rw [List.filterMap_cons_none isFile]
            exact later found
        | some file =>
            rw [List.filterMap_cons_some isFile]
            exact later (place found file)
  exact steps entries _ fun _ member => member

theorem foldl_place (files : List (Path × Bytes)) (found : ExtractedFiles) :
    files.foldl place found =
      ((files.filter fun file => file.2.length ≤ maxSharedFileBytes).foldl
          (fun tree file => tree.insert file.1 file.2) found.1,
        found.2 ++ (files.filter fun file => ¬ file.2.length ≤ maxSharedFileBytes).map
          fun file => (file.1, file.2.length)) := by
  induction files generalizing found with
  | nil => simp
  | cons file files induction =>
      rw [List.foldl_cons, induction]
      by_cases small : file.2.length ≤ maxSharedFileBytes
      · simp [place, small, Nat.not_lt.mpr small]
      · simp [place, small, Nat.lt_of_not_le small]

/-- Inserted files with distinct paths are found again. -/
theorem lookup_inserted {files : List (Path × Bytes)} (distinct : (files.map Prod.fst).Nodup)
    (tree : Tree) {rel : Path} :
    (files.foldl (fun tree file => tree.insert file.1 file.2) tree).lookup rel = some content ↔
      (rel, content) ∈ files ∨ (rel ∉ files.map Prod.fst ∧ tree.lookup rel = some content) := by
  induction files generalizing tree with
  | nil => simp
  | cons file files induction =>
      obtain ⟨path, bytes⟩ := file
      rw [List.map_cons, List.nodup_cons] at distinct
      rw [List.foldl_cons, induction distinct.2, List.map_cons, List.mem_cons, List.mem_cons,
        not_or]
      by_cases same : rel = path
      · subst same
        have absent : (rel, content) ∉ files :=
          fun member => distinct.1 (List.mem_map.mpr ⟨_, member, rfl⟩)
        rw [AList.lookup_insert]
        constructor
        · rintro (member | ⟨-, held⟩)
          · exact absurd member absent
          · cases held
            exact .inl (.inl rfl)
        · rintro ((held | member) | ⟨⟨different, -⟩, -⟩)
          · exact .inr ⟨distinct.1, by rw [(Prod.mk.inj held).2]⟩
          · exact absurd member absent
          · exact absurd rfl different
      · rw [AList.lookup_insert_ne same]
        constructor
        · rintro (member | ⟨unnamed, held⟩)
          · exact .inl (.inr member)
          · exact .inr ⟨⟨same, unnamed⟩, held⟩
        · rintro ((held | member) | ⟨⟨-, unnamed⟩, held⟩)
          · exact absurd (Prod.mk.inj held).1 same
          · exact .inl member
          · exact .inr ⟨unnamed, held⟩

/-- The domain files of an archive are those of its tree. -/
theorem mem_domainFiles (archives : Archives top tree entries) {rel : Path} :
    (rel, content) ∈ entries.filterMap (fileOf sub) ↔
      tree.lookup (toRepoRelative rel sub) = some content ∧ isExcludedPath rel = false := by
  obtain ⟨noSlash, -, -⟩ := archives.plainTop
  rw [List.mem_filterMap]
  constructor
  · rintro ⟨entry, member, holds⟩
    unfold fileOf at holds
    split at holds
    · rename_i isFile
      obtain ⟨path, isPath, isContent⟩ := archives.mem member isFile
      rw [isPath, splitOnce_char_append noSlash, Option.bind_some, Option.map_eq_some_iff] at holds
      obtain ⟨name, isName, same⟩ := holds
      cases same
      obtain ⟨rfl, included⟩ := toDomainRelative_eq_some.mp isName
      exact ⟨isContent, included⟩
    · cases holds
  · rintro ⟨isContent, included⟩
    have listed : (top ++ '/' :: toRepoRelative rel sub, content) ∈
        tree.entries.map fun file => (top ++ '/' :: file.1, file.2) :=
      List.mem_map.mpr ⟨⟨toRepoRelative rel sub, content⟩, AList.mem_lookup_iff.mp isContent, rfl⟩
    obtain ⟨entry, member, same⟩ := List.mem_map.mp (archives.files.mem_iff.mpr listed)
    obtain ⟨member, isFile⟩ := List.mem_filter.mp member
    obtain ⟨isPath, rfl⟩ := Prod.mk.inj same
    refine ⟨entry, member, ?_⟩
    have named : toDomainRelative (toRepoRelative rel sub) sub = some rel :=
      toDomainRelative_eq_some.mpr ⟨rfl, included⟩
    rw [fileOf, if_pos isFile, isPath, splitOnce_char_append noSlash, Option.bind_some, named]
    rfl

/-- The domain files of an archive have distinct paths. -/
theorem domainFiles_distinct (archives : Archives top tree entries) :
    ((entries.filterMap (fileOf sub)).map Prod.fst).Nodup := by
  have paths : ((entries.filter TarEntry.isFile).map TarEntry.path).Nodup := by
    have whole := archives.files.map Prod.fst
    rw [List.map_map, List.map_map] at whole
    refine whole.nodup_iff.mpr ?_
    have keys : (tree.entries.map Sigma.fst).Nodup := tree.nodupKeys
    have below : Function.Injective fun path : Text => top ++ '/' :: path := by
      intro left right same
      exact List.cons_injective (List.append_cancel_left same)
    have mapped := keys.map below
    rw [List.map_map] at mapped
    exact mapped
  have onlyFiles : entries.filterMap (fileOf sub) =
      (entries.filter TarEntry.isFile).filterMap (fileOf sub) := by
    rw [List.filterMap_filter]
    congr 1
    funext entry
    unfold fileOf
    split <;> rfl
  rw [onlyFiles]
  apply Keyed.nodup_reports (paths.of_map TarEntry.path)
  intro first firstMember second secondMember one other oneIs otherIs same
  apply List.inj_on_of_nodup_map paths firstMember secondMember
  have named : ∀ entry ∈ entries.filter TarEntry.isFile, ∀ file, fileOf sub entry = some file →
      entry.path = top ++ '/' :: toRepoRelative file.1 sub := by
    intro entry member file isFile
    obtain ⟨member, regular⟩ := List.mem_filter.mp member
    obtain ⟨path, isPath, -⟩ := archives.mem member regular
    obtain ⟨noSlash, -, -⟩ := archives.plainTop
    rw [fileOf, if_pos regular, isPath, splitOnce_char_append noSlash, Option.bind_some,
      Option.map_eq_some_iff] at isFile
    obtain ⟨rel, isRel, rfl⟩ := isFile
    have isRepo : path = toRepoRelative rel sub := (toDomainRelative_eq_some.mp isRel).1
    rw [isPath, isRepo]
  rw [named first firstMember one oneIs, named second secondMember other otherIs, same]

end Tarball

section Trees

/-- The path a change takes away. -/
def UpstreamChange.oldPath (change : UpstreamChange) : Option Text :=
  match change.kind with
  | .removed => some change.path
  | .renamed previous => some previous
  | .added | .modified => none

/-- The path a change brings or edits. -/
def UpstreamChange.newPath (change : UpstreamChange) : Option Text :=
  match change.kind with
  | .removed => none
  | .added | .modified | .renamed _ => some change.path

/-- A list of changes that is the difference of two trees: the paths taken away,
the paths brought or edited with their new blobs, each path once. -/
structure Compares (blobSha : Bytes → Sha) (base head : Tree) (changes : List UpstreamChange) :
    Prop where
  once : (changes.flatMap fun change => change.oldPath.toList ++ change.newPath.toList).Nodup
  old : ∀ path, (∃ change ∈ changes, change.oldPath = some path) ↔
    base.lookup path ≠ none ∧ head.lookup path = none
  new : ∀ path, (∃ change ∈ changes, change.newPath = some path) ↔
    head.lookup path ≠ none ∧ head.lookup path ≠ base.lookup path
  blob : ∀ change ∈ changes, ∀ path content, change.newPath = some path →
    head.lookup path = some content → change.blobSha = some (blobSha content)

/-- A forge that serves a head: its blobs, and its archive of plain paths. -/
structure Serves (forge : UpstreamForge) (blobSha : Bytes → Sha) (head : Tree) : Prop where
  blob : ∀ path content, head.lookup path = some content →
    forge.blob (blobSha content) = .ok content
  archive : ∃ top entries, forge.tarball = .ok entries ∧ Archives top head entries
  plain : ∀ path, head.lookup path ≠ none → IsPlainPath path

/-- The manifest of a base: its domain files within the size limit. -/
def IsManifest (sha256Hex : Bytes → Sha) (sub : Option Text) (base : Tree)
    (files : Snapshot) : Prop :=
  ∀ rel stamp, files.lookup rel = some stamp ↔ isExcludedPath rel = false ∧
    ∃ content, base.lookup (toRepoRelative rel sub) = some content ∧ Detector.Small content ∧
      stamp = Remote.stamp sha256Hex content

variable (sub : Option Text) (base head : Tree)

/-- A domain file that came or changed, and is small. -/
def Writes (rel : Path) (content : Bytes) : Prop :=
  isExcludedPath rel = false ∧ head.lookup (toRepoRelative rel sub) = some content ∧
    Detector.Small content ∧ base.lookup (toRepoRelative rel sub) ≠ some content

/-- A domain file that is gone. -/
def Removes (rel : Path) : Prop :=
  isExcludedPath rel = false ∧ head.lookup (toRepoRelative rel sub) = none ∧
    base.lookup (toRepoRelative rel sub) ≠ none

/-- A domain file of the head too large to share. -/
def TooLarge (rel : Path) (size : Nat) : Prop :=
  isExcludedPath rel = false ∧ ∃ content, head.lookup (toRepoRelative rel sub) = some content ∧
    ¬ Detector.Small content ∧ size = content.length

/-- What the new side of a change adds, its blob at hand. -/
def newEdits (change : UpstreamChange) : UpstreamEdits :=
  match change.newPath.bind fun path => toDomainRelative path sub with
  | none => ([], [])
  | some rel =>
      match head.lookup change.path with
      | none => ([], [])
      | some content =>
          if maxSharedFileBytes < content.length then ([], [(rel, content.length)])
          else ([⟨rel, some content⟩], [])

/-- What a change adds to the edits. -/
def editsOf (change : UpstreamChange) : UpstreamEdits :=
  ((change.oldPath.map (oldSide sub)).getD [] ++ (newEdits sub head change).1,
    (newEdits sub head change).2)

variable {sub base head} {blobSha : Bytes → Sha} {changes : List UpstreamChange}
  {forge : UpstreamForge} {change : UpstreamChange} {rel : Path} {content : Option Bytes}

theorem newPath_eq_some {path : Text} (isNew : change.newPath = some path) :
    path = change.path := by
  unfold UpstreamChange.newPath at isNew
  cases kind : change.kind <;> simp [kind] at isNew <;> exact isNew.symm

/-- A served change is read as its edits. -/
theorem changeEdits_eq (serves : Serves forge blobSha head)
    (compares : Compares blobSha base head changes) (member : change ∈ changes) :
    changeEdits forge sub change = .ok (editsOf sub head change) := by
  have read : ∀ path, change.newPath = some path →
      newSide forge sub change = .ok (newEdits sub head change) := by
    intro path isNew
    obtain rfl := newPath_eq_some isNew
    unfold newSide newEdits
    rw [isNew, Option.bind_some]
    cases toDomainRelative change.path sub with
    | none => rfl
    | some rel =>
        have there := ((compares.new change.path).mp ⟨change, member, isNew⟩).1
        obtain ⟨content, isContent⟩ := Option.ne_none_iff_exists'.mp there
        have isBlob := compares.blob change member change.path content isNew isContent
        simp only [isContent, pushBlobEdit, isBlob]
        rw [serves.blob change.path content isContent]
        by_cases large : maxSharedFileBytes < content.length
        · simp [large, bind, Except.bind, pure, Except.pure]
        · simp [large, bind, Except.bind, pure, Except.pure]
  unfold changeEdits editsOf
  cases kind : change.kind with
  | added =>
      have isNew : change.newPath = some change.path := by simp [UpstreamChange.newPath, kind]
      simp [read _ isNew, UpstreamChange.oldPath, kind]
  | modified =>
      have isNew : change.newPath = some change.path := by simp [UpstreamChange.newPath, kind]
      simp [read _ isNew, UpstreamChange.oldPath, kind]
  | removed => simp [UpstreamChange.oldPath, newEdits, UpstreamChange.newPath, kind]
  | renamed previous =>
      have isNew : change.newPath = some change.path := by simp [UpstreamChange.newPath, kind]
      simp [read _ isNew, UpstreamChange.oldPath, kind, Except.map]

variable (sub head) in
/-- The new side of a change is one domain file of the head, or none. -/
theorem newEdits_cases (change : UpstreamChange) :
    (∃ rel bytes, change.newPath = some (toRepoRelative rel sub) ∧ isExcludedPath rel = false ∧
        head.lookup (toRepoRelative rel sub) = some bytes ∧
          newEdits sub head change = if maxSharedFileBytes < bytes.length
            then ([], [(rel, bytes.length)]) else ([⟨rel, some bytes⟩], [])) ∨
      (newEdits sub head change = ([], []) ∧ ∀ rel,
        change.newPath = some (toRepoRelative rel sub) → isExcludedPath rel = false →
          head.lookup (toRepoRelative rel sub) = none) := by
  unfold newEdits
  cases isNew : change.newPath with
  | none => exact .inr ⟨rfl, fun rel same => by cases same⟩
  | some path =>
      obtain rfl := newPath_eq_some isNew
      rw [Option.bind_some]
      cases isRel : toDomainRelative change.path sub with
      | none =>
          refine .inr ⟨rfl, fun rel same included => ?_⟩
          rw [toDomainRelative_eq_some.mpr ⟨Option.some.inj same, included⟩] at isRel
          cases isRel
      | some rel =>
          obtain ⟨isRepo, included⟩ := toDomainRelative_eq_some.mp isRel
          rw [isRepo]
          cases isContent : head.lookup (toRepoRelative rel sub) with
          | none =>
              refine .inr ⟨rfl, fun other same _ => ?_⟩
              rw [← Option.some.inj same]
              exact isContent
          | some bytes => exact .inl ⟨rel, bytes, rfl, included, isContent, rfl⟩

theorem mem_newEdits :
    ⟨rel, content⟩ ∈ (newEdits sub head change).1 ↔ ∃ bytes, content = some bytes ∧
      change.newPath = some (toRepoRelative rel sub) ∧ isExcludedPath rel = false ∧
        head.lookup (toRepoRelative rel sub) = some bytes ∧ Detector.Small bytes := by
  obtain ⟨name, bytes, isNew, included, isContent, adds⟩ | ⟨adds, nothing⟩ :=
    newEdits_cases sub head change
  · rw [adds]
    have only : ∀ {other}, change.newPath = some (toRepoRelative other sub) → other = name := by
      intro other same
      exact toRepoRelative_injective (Option.some.inj (same.symm.trans isNew))
    by_cases large : maxSharedFileBytes < bytes.length
    · have notSmall : ¬ Detector.Small bytes := by simpa [Detector.Small] using large
      simp only [large, if_true, List.not_mem_nil, false_iff]
      rintro ⟨other, -, same, -, held, small⟩
      obtain rfl := only same
      rw [isContent] at held
      cases held
      exact notSmall small
    · have small : Detector.Small bytes := by simpa [Detector.Small] using large
      simp only [large, if_false, List.mem_singleton, UpstreamEdit.mk.injEq]
      constructor
      · rintro ⟨rfl, rfl⟩
        exact ⟨bytes, rfl, isNew, included, isContent, small⟩
      · rintro ⟨other, rfl, same, -, held, -⟩
        obtain rfl := only same
        rw [isContent] at held
        cases held
        exact ⟨rfl, rfl⟩
  · rw [adds]
    simp only [List.not_mem_nil, false_iff]
    rintro ⟨other, -, same, included, held, -⟩
    rw [nothing rel same included] at held
    cases held

theorem mem_newSkipped {size : Nat} :
    (rel, size) ∈ (newEdits sub head change).2 ↔
      change.newPath = some (toRepoRelative rel sub) ∧ TooLarge sub head rel size := by
  obtain ⟨name, bytes, isNew, included, isContent, adds⟩ | ⟨adds, nothing⟩ :=
    newEdits_cases sub head change
  · rw [adds]
    have only : ∀ {other}, change.newPath = some (toRepoRelative other sub) → other = name := by
      intro other same
      exact toRepoRelative_injective (Option.some.inj (same.symm.trans isNew))
    by_cases large : maxSharedFileBytes < bytes.length
    · have notSmall : ¬ Detector.Small bytes := by simpa [Detector.Small] using large
      simp only [large, if_true, List.mem_singleton, Prod.mk.injEq]
      constructor
      · rintro ⟨rfl, rfl⟩
        exact ⟨isNew, included, bytes, isContent, notSmall, rfl⟩
      · rintro ⟨same, -, other, held, -, rfl⟩
        obtain rfl := only same
        rw [isContent] at held
        cases held
        exact ⟨rfl, rfl⟩
    · have small : Detector.Small bytes := by simpa [Detector.Small] using large
      simp only [large, if_false, List.not_mem_nil, false_iff]
      rintro ⟨same, -, other, held, notSmall, -⟩
      obtain rfl := only same
      rw [isContent] at held
      cases held
      exact notSmall small
  · rw [adds]
    simp only [List.not_mem_nil, false_iff]
    rintro ⟨same, included, other, held, -⟩
    rw [nothing rel same included] at held
    cases held

theorem mem_oldSide {path : Text} :
    ⟨rel, content⟩ ∈ oldSide sub path ↔
      content = none ∧ path = toRepoRelative rel sub ∧ isExcludedPath rel = false := by
  rw [← toDomainRelative_eq_some, oldSide]
  cases isRel : toDomainRelative path sub with
  | none => simp
  | some name =>
      simp only [List.mem_singleton, UpstreamEdit.mk.injEq, Option.some.injEq]
      constructor
      · rintro ⟨rfl, rfl⟩
        exact ⟨rfl, rfl⟩
      · rintro ⟨rfl, rfl⟩
        exact ⟨rfl, rfl⟩

/-- The edits of a compare are the differences of the domain, small or gone. -/
theorem mem_compareEdits (compares : Compares blobSha base head changes) :
    ⟨rel, content⟩ ∈ changes.flatMap (fun change => (editsOf sub head change).1) ↔
      (∃ bytes, content = some bytes ∧ Writes sub base head rel bytes) ∨
        (content = none ∧ Removes sub base head rel) := by
  have oldEdits : ∀ change : UpstreamChange,
      ⟨rel, content⟩ ∈ (change.oldPath.map (oldSide sub)).getD [] ↔
        content = none ∧ change.oldPath = some (toRepoRelative rel sub) ∧
          isExcludedPath rel = false := by
    intro change
    cases isOld : change.oldPath with
    | none => simp
    | some path => simp [mem_oldSide]
  simp only [List.mem_flatMap, editsOf, List.mem_append, oldEdits, mem_newEdits]
  constructor
  · rintro ⟨change, member, ⟨rfl, isOld, included⟩ | ⟨bytes, rfl, isNew, included, held, small⟩⟩
    · obtain ⟨inBase, gone⟩ := (compares.old _).mp ⟨change, member, isOld⟩
      exact .inr ⟨rfl, included, gone, inBase⟩
    · obtain ⟨-, changed⟩ := (compares.new _).mp ⟨change, member, isNew⟩
      refine .inl ⟨bytes, rfl, included, held, small, fun same => changed ?_⟩
      rw [held, same]
  · rintro (⟨bytes, rfl, included, held, small, changed⟩ | ⟨rfl, included, gone, inBase⟩)
    · obtain ⟨change, member, isNew⟩ := (compares.new _).mpr
        ⟨by rw [held]; exact Option.some_ne_none _, by rw [held]; exact changed.symm⟩
      exact ⟨change, member, .inr ⟨bytes, rfl, isNew, included, held, small⟩⟩
    · obtain ⟨change, member, isOld⟩ := (compares.old _).mpr ⟨inBase, gone⟩
      exact ⟨change, member, .inl ⟨rfl, isOld, included⟩⟩

theorem mem_compareSkipped (compares : Compares blobSha base head changes) {size : Nat} :
    (rel, size) ∈ changes.flatMap (fun change => (editsOf sub head change).2) ↔
      TooLarge sub head rel size ∧
        head.lookup (toRepoRelative rel sub) ≠ base.lookup (toRepoRelative rel sub) := by
  simp only [List.mem_flatMap, editsOf, mem_newSkipped]
  constructor
  · rintro ⟨change, member, isNew, tooLarge⟩
    exact ⟨tooLarge, ((compares.new _).mp ⟨change, member, isNew⟩).2⟩
  · rintro ⟨tooLarge, changed⟩
    obtain ⟨-, content, held, -⟩ := id tooLarge
    obtain ⟨change, member, isNew⟩ := (compares.new _).mpr
      ⟨by rw [held]; exact Option.some_ne_none _, changed⟩
    exact ⟨change, member, isNew, tooLarge⟩

variable (sub) in
/-- The compare is read as the edits of its changes. -/
theorem upstreamEdits_compare (sha256Hex : Bytes → Sha) (serves : Serves forge blobSha head)
    {compare : CompareResult} (compares : Compares blobSha base head compare.files)
    (files : Snapshot)
    (short : (compare.truncated || maxCompareFiles <
      (compare.files.filter (touchesDomain sub)).length) = false) :
    upstreamEdits sha256Hex forge sub files compare =
      .ok (compare.files.flatMap (fun change => (editsOf sub head change).1),
        compare.files.flatMap fun change => (editsOf sub head change).2) := by
  have silent : ∀ change : UpstreamChange, touchesDomain sub change = false →
      editsOf sub head change = ([], []) := by
    intro change untouched
    have noSide : ∀ path, (toDomainRelative path sub).isSome = false →
        toDomainRelative path sub = none := fun _ absent => by simpa using absent
    unfold touchesDomain at untouched
    unfold editsOf newEdits UpstreamChange.oldPath UpstreamChange.newPath
    cases kind : change.kind with
    | added =>
        rw [kind] at untouched
        simp [noSide _ untouched]
    | modified =>
        rw [kind] at untouched
        simp [noSide _ untouched]
    | removed =>
        rw [kind] at untouched
        simp [oldSide, noSide _ untouched]
    | renamed previous =>
        rw [kind] at untouched
        simp only [Bool.or_eq_false_iff] at untouched
        simp [oldSide, noSide _ untouched.1, noSide _ untouched.2]
  have read : (compare.files.filter (touchesDomain sub)).mapM (changeEdits forge sub) =
      .ok ((compare.files.filter (touchesDomain sub)).map (editsOf sub head)) :=
    Keyed.mapM_of_ok fun change member =>
      changeEdits_eq serves compares (List.mem_of_mem_filter member)
  have kept : ∀ {Edit : Type} (pick : UpstreamEdits → List Edit), pick ([], []) = [] →
      (compare.files.filter (touchesDomain sub)).flatMap (fun change =>
          pick (editsOf sub head change)) =
        compare.files.flatMap fun change => pick (editsOf sub head change) := by
    intro Edit pick empty
    induction compare.files with
    | nil => rfl
    | cons change changes induction =>
        cases touches : touchesDomain sub change with
        | true => rw [List.filter_cons_of_pos touches, List.flatMap_cons, List.flatMap_cons, induction]
        | false =>
            rw [List.filter_cons_of_neg (by simp [touches]), List.flatMap_cons, induction,
              silent change touches, empty, List.nil_append]
  unfold upstreamEdits
  dsimp only
  rw [short]
  simp only [Bool.false_eq_true, if_false, read, bind, Except.bind, pure, Except.pure,
    List.flatMap_map]
  rw [kept Prod.fst rfl, kept Prod.snd rfl]

section Manifest

variable {sha256Hex : Bytes → Sha} {files : Snapshot} {found : ExtractedFiles}
  {content : Option Bytes}

theorem mem_changedFiles {extracted : Tree} {rel : Path} :
    ⟨rel, content⟩ ∈ changedFiles sha256Hex files extracted ↔ ∃ bytes, content = some bytes ∧
      extracted.lookup rel = some bytes ∧
        ∀ base, files.lookup rel = some base → sha256Hex bytes ≠ base.sha256 := by
  rw [changedFiles, List.mem_filterMap]
  constructor
  · rintro ⟨⟨name, bytes⟩, member, reported⟩
    dsimp only at reported
    split at reported
    · rename_i unlisted
      cases reported
      refine ⟨bytes, rfl, AList.mem_lookup_iff.mpr member, fun base listed => ?_⟩
      rw [unlisted] at listed
      cases listed
    · rename_i base listed
      split at reported
      · rename_i different
        cases reported
        refine ⟨bytes, rfl, AList.mem_lookup_iff.mpr member, fun other otherListed => ?_⟩
        rw [listed] at otherListed
        cases otherListed
        exact different
      · cases reported
  · rintro ⟨bytes, rfl, extractedAs, different⟩
    refine ⟨⟨rel, bytes⟩, AList.mem_lookup_iff.mp extractedAs, ?_⟩
    cases listed : files.lookup rel with
    | none => simp
    | some base => simp [different base listed]

theorem mem_goneFiles {rel : Path} :
    ⟨rel, content⟩ ∈ goneFiles files found ↔ content = none ∧ files.lookup rel ≠ none ∧
      found.1.lookup rel = none ∧ ∀ size, (rel, size) ∉ found.2 := by
  rw [goneFiles, List.mem_filterMap]
  constructor
  · rintro ⟨name, member, reported⟩
    split at reported
    · rename_i absent
      cases reported
      rw [Bool.and_eq_true, Option.isNone_iff_eq_none, Bool.not_eq_true', ← Bool.not_eq_true,
        List.contains_iff_mem] at absent
      refine ⟨rfl, ?_, absent.1, fun size left => absent.2 (List.mem_map.mpr ⟨_, left, rfl⟩)⟩
      rw [Ne, AList.lookup_eq_none, not_not]
      exact AList.mem_keys.mpr member
    · cases reported
  · rintro ⟨rfl, listed, absent, kept⟩
    rw [Ne, AList.lookup_eq_none, not_not] at listed
    refine ⟨rel, AList.mem_keys.mp listed, ?_⟩
    rw [if_pos]
    rw [Bool.and_eq_true, Option.isNone_iff_eq_none, Bool.not_eq_true', ← Bool.not_eq_true,
      List.contains_iff_mem]
    refine ⟨absent, fun named => ?_⟩
    obtain ⟨⟨name, size⟩, left, rfl⟩ := List.mem_map.mp named
    exact kept size left

variable (sha256Hex files found) in
/-- Each path is edited once. -/
theorem tarballEdits_distinct :
    ((changedFiles sha256Hex files found.1 ++ goneFiles files found).map
      UpstreamEdit.path).Nodup := by
  rw [List.map_append, List.nodup_append]
  refine ⟨?_, ?_, ?_⟩
  · have keys : (found.1.entries.map Sigma.fst).Nodup := found.1.nodupKeys
    apply Keyed.nodup_reports (keys.of_map Sigma.fst)
    rintro ⟨first, bytes⟩ firstMember ⟨second, content⟩ secondMember one other oneIs otherIs same
    have onePath : one.path = first := by
      split at oneIs
      · cases oneIs
        rfl
      · split at oneIs
        · cases oneIs
          rfl
        · cases oneIs
    have otherPath : other.path = second := by
      split at otherIs
      · cases otherIs
        rfl
      · split at otherIs
        · cases otherIs
          rfl
        · cases otherIs
    apply List.inj_on_of_nodup_map keys firstMember secondMember
    exact onePath.symm.trans (same.trans otherPath)
  · apply Keyed.nodup_reports files.keys_nodup
    intro first firstMember second secondMember one other oneIs otherIs same
    split at oneIs
    · split at otherIs
      · cases oneIs
        cases otherIs
        exact same
      · cases otherIs
    · cases oneIs
  · intro left leftMember right rightMember same
    obtain ⟨⟨path, content⟩, written, rfl⟩ := List.mem_map.mp leftMember
    obtain ⟨⟨other, removed⟩, gone, rfl⟩ := List.mem_map.mp rightMember
    obtain ⟨bytes, -, extractedAs, -⟩ := mem_changedFiles.mp written
    obtain ⟨-, -, absent, -⟩ := mem_goneFiles.mp gone
    obtain rfl : path = other := same
    rw [absent] at extractedAs
    cases extractedAs

end Manifest

/-- The edits of a tarball are the differences of the domain, but for removals of
what the manifest does not list. -/
theorem upstreamEdits_tarball {sha256Hex : Bytes → Sha}
    (injective : Function.Injective sha256Hex) (serves : Serves forge blobSha head)
    {files : Snapshot} (manifest : IsManifest sha256Hex sub base files) :
    ∃ edits skipped, upstreamEditsFromTarball sha256Hex forge sub files = .ok (edits, skipped) ∧
      (edits.map UpstreamEdit.path).Nodup ∧
      (∀ rel content, ⟨rel, content⟩ ∈ edits ↔
        (∃ bytes, content = some bytes ∧ Writes sub base head rel bytes) ∨
          (content = none ∧ Removes sub base head rel ∧ files.lookup rel ≠ none)) ∧
      ∀ rel size, (rel, size) ∈ skipped ↔ TooLarge sub head rel size := by
  obtain ⟨top, entries, isTarball, archives⟩ := serves.archive
  have extracts := extractTarball_plain sub archives serves.plain
  rw [foldl_place] at extracts
  set domainFiles := entries.filterMap (fileOf sub) with areFiles
  set extracted : Tree := (domainFiles.filter fun file =>
    file.2.length ≤ maxSharedFileBytes).foldl
      (fun tree file => tree.insert file.1 file.2) ∅ with areExtracted
  set skipped := (domainFiles.filter fun file => ¬ file.2.length ≤ maxSharedFileBytes).map
    fun file => (file.1, file.2.length) with areSkipped
  have isExtracted : ∀ rel content, extracted.lookup rel = some content ↔
      isExcludedPath rel = false ∧ head.lookup (toRepoRelative rel sub) = some content ∧
        Detector.Small content := by
    intro rel content
    have distinct : ((domainFiles.filter fun file =>
        file.2.length ≤ maxSharedFileBytes).map Prod.fst).Nodup :=
      (domainFiles_distinct archives).sublist (List.filter_sublist.map Prod.fst)
    rw [areExtracted, lookup_inserted distinct, AList.lookup_empty]
    simp only [reduceCtorEq, and_false, or_false, List.mem_filter, decide_eq_true_eq, areFiles,
      mem_domainFiles archives]
    exact ⟨fun held => ⟨held.1.2, held.1.1, held.2⟩, fun held => ⟨⟨held.2.1, held.1⟩, held.2.2⟩⟩
  have isSkipped : ∀ rel size, (rel, size) ∈ skipped ↔ TooLarge sub head rel size := by
    intro rel size
    rw [areSkipped, List.mem_map]
    constructor
    · rintro ⟨⟨name, content⟩, member, same⟩
      cases same
      obtain ⟨member, large⟩ := List.mem_filter.mp member
      obtain ⟨held, included⟩ := (mem_domainFiles archives).mp member
      exact ⟨included, content, held, by simpa [Detector.Small] using large, rfl⟩
    · rintro ⟨included, content, held, large, rfl⟩
      exact ⟨(rel, content), List.mem_filter.mpr ⟨(mem_domainFiles archives).mpr ⟨held, included⟩,
        by simpa [Detector.Small] using large⟩, rfl⟩
  refine ⟨changedFiles sha256Hex files extracted ++ goneFiles files (extracted, skipped), skipped,
    ?_, tarballEdits_distinct _ _ (extracted, skipped), ?_, isSkipped⟩
  · rw [upstreamEditsFromTarball, isTarball]
    simp only [bind, Except.bind, extracts, List.nil_append]
    rfl
  · intro rel content
    rw [List.mem_append, mem_changedFiles, mem_goneFiles]
    constructor
    · rintro (⟨bytes, rfl, extractedAs, different⟩ | ⟨rfl, listed, absent, kept⟩)
      · obtain ⟨included, held, small⟩ := (isExtracted rel bytes).mp extractedAs
        refine .inl ⟨bytes, rfl, included, held, small, fun same => ?_⟩
        exact different _ ((manifest rel _).mpr ⟨included, bytes, same, small, rfl⟩) rfl
      · obtain ⟨stamp, isStamp⟩ := Option.ne_none_iff_exists'.mp listed
        obtain ⟨included, bytes, inBase, -⟩ := (manifest rel stamp).mp isStamp
        refine .inr ⟨rfl, ⟨included, ?_, by rw [inBase]; exact Option.some_ne_none _⟩, listed⟩
        -- What the head had would be extracted or left out, by its size.
        cases held : head.lookup (toRepoRelative rel sub) with
        | none => rfl
        | some bytes =>
            by_cases small : Detector.Small bytes
            · rw [(isExtracted rel bytes).mpr ⟨included, held, small⟩] at absent
              cases absent
            · exact absurd ((isSkipped rel _).mpr ⟨included, bytes, held, small, rfl⟩) (kept _)
    · rintro (⟨bytes, rfl, included, held, small, changed⟩ | ⟨rfl, ⟨included, gone, -⟩, listed⟩)
      · refine .inl ⟨bytes, rfl, (isExtracted rel bytes).mpr ⟨included, held, small⟩, ?_⟩
        intro stamp isStamp same
        obtain ⟨-, other, inBase, -, rfl⟩ := (manifest rel stamp).mp isStamp
        obtain rfl : bytes = other := injective same
        exact changed inBase
      · refine .inr ⟨rfl, listed, ?_, ?_⟩
        · rw [Option.eq_none_iff_forall_ne_some]
          intro bytes extractedAs
          rw [((isExtracted rel bytes).mp extractedAs).2.1] at gone
          cases gone
        · intro size left
          obtain ⟨-, bytes, held, -⟩ := (isSkipped rel size).mp left
          rw [held] at gone
          cases gone

end Trees

end Crystalline.Remote
