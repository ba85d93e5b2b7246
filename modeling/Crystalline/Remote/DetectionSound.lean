import Crystalline.Remote.Detection

/-!
# Detection proposes no phantom deletion and misses no edit

Applying the reported changes to the base gives what is on disk: the digest of
each small file that takes part, under its base spelling where it adopted one.
Three kinds of base entries stand as they were: that of a file with the same
text, that of a file too large to share, and that of a path another spelling of
which is in the base and on disk.
-/

namespace Crystalline.Remote

open Text

/-- A change as an edit of the digests. -/
def LocalChange.edit : LocalChange → Path × Option Sha
  | .added path sha256 => (path, some sha256)
  | .modified path sha256 => (path, some sha256)
  | .deleted path => (path, none)

@[simp] theorem LocalChange.edit_fst (change : LocalChange) : change.edit.1 = change.path := by
  cases change <;> rfl

namespace Detector

variable (detector : Detector)

/-- The digests of the base, of the paths that take part. -/
def baseDigest (base : Snapshot) (path : Path) : Option Sha :=
  if detector.policy.takesPart path then (base.lookup path).map BaseStamp.sha256 else none

/-- The digest of a file next to its base entry: that of the entry when the
file counts as the same. -/
def keptDigest (path : Path) (stamp : BaseStamp) (bytes : Bytes) : Sha :=
  if detector.unchanged path stamp bytes then stamp.sha256 else detector.sha256Hex bytes

/-- What a path holds once the changes are applied. -/
inductive Stands (tree : Tree) (base : Snapshot) : Path → Sha → Prop where
  | listed {path bytes stamp} (onDisk : detector.OnDisk tree path bytes)
      (small : Small bytes) (listed : detector.Listed base path stamp) :
      Stands tree base path (detector.keptDigest path stamp bytes)
  | adopted {path bytes key stamp} (adopts : detector.Adopts tree base path bytes key stamp) :
      Stands tree base key (detector.keptDigest key stamp bytes)
  | fresh {path bytes} (onDisk : detector.OnDisk tree path bytes) (small : Small bytes)
      (unlisted : ∀ stamp, ¬ detector.Listed base path stamp)
      (fresh : ∀ key stamp, ¬ detector.Adopts tree base path bytes key stamp) :
      Stands tree base path (detector.sha256Hex bytes)
  | large {path bytes stamp} (onDisk : detector.OnDisk tree path bytes)
      (large : ¬ Small bytes) (listed : detector.Listed base path stamp) :
      Stands tree base path stamp.sha256
  | twin {path stamp other otherStamp bytes} (listed : detector.Listed base path stamp)
      (absent : ∀ content, ¬ detector.OnDisk tree path content)
      (otherListed : detector.Listed base other otherStamp)
      (alike : detector.foldCase other = detector.foldCase path)
      (onDisk : detector.OnDisk tree other bytes) :
      Stands tree base path stamp.sha256

variable {detector} {tree : Tree} {base : Snapshot} {result : LocalChanges} {path : Path}
  {bytes : Bytes} {stamp : BaseStamp} {change : LocalChange}

theorem baseDigest_eq_some {digest : Sha} :
    detector.baseDigest base path = some digest ↔
      ∃ stamp, detector.Listed base path stamp ∧ stamp.sha256 = digest := by
  unfold baseDigest Listed
  by_cases takes : detector.policy.takesPart path = true
  · rw [if_pos takes, Option.map_eq_some_iff]
    simp [takes]
  · rw [if_neg takes]
    simp [takes]

theorem Adopts.isSmall (succeeded : detector.detectLocalChangesWith tree base = .ok result)
    {path key : Path} (adopts : detector.Adopts tree base path bytes key stamp) : Small bytes := by
  obtain ⟨run⟩ := passes succeeded
  obtain ⟨answer, isAnswer⟩ := Keyed.ok_of_mapM run.adoptions
    (mem_unmatched.mpr ⟨adopts.unmatched.onDisk, adopts.unmatched.unlisted⟩)
  exact small_of_adopts adopts isAnswer

section Applied

variable (succeeded : detector.detectLocalChangesWith tree base = .ok result)
include succeeded

theorem applied_of_reports {change : LocalChange} (reports : detector.Reports tree base change) :
    Keyed.applied (result.changes.map LocalChange.edit) (detector.baseDigest base)
      change.path = change.edit.2 := by
  apply Keyed.applied_of_mem
  · rw [List.map_map]
    have same : Prod.fst ∘ LocalChange.edit = LocalChange.path :=
      funext LocalChange.edit_fst
    rw [same]
    exact nodup_changes succeeded
  · rw [← LocalChange.edit_fst]
    exact List.mem_map_of_mem ((mem_changes succeeded).mpr reports)

theorem applied_of_silent {path : Path}
    (silent : ∀ change, detector.Reports tree base change → change.path ≠ path) :
    Keyed.applied (result.changes.map LocalChange.edit) (detector.baseDigest base) path =
      detector.baseDigest base path := by
  apply Keyed.applied_of_not_named
  rw [List.map_map, List.mem_map]
  rintro ⟨change, member, same⟩
  apply silent change ((mem_changes succeeded).mp member)
  rw [← LocalChange.edit_fst]
  exact same

end Applied

theorem Reports.of_listed_onDisk (onDisk : detector.OnDisk tree path bytes)
    (listed : detector.Listed base path stamp) (reports : detector.Reports tree base change)
    (same : change.path = path) : Small bytes ∧ detector.unchanged path stamp bytes = false := by
  cases reports with
  | @modified file content otherStamp there small otherListed changed =>
      obtain rfl : file = path := same
      rw [onDisk.unique there, listed.unique otherListed]
      exact ⟨small, changed⟩
  | @recased file content key otherStamp adopts small changed =>
      obtain rfl : key = path := same
      exact absurd onDisk (adopts.absent bytes)
  | @added file content there small unlisted fresh =>
      obtain rfl : file = path := same
      exact absurd listed (unlisted stamp)
  | @deleted file otherStamp otherListed absent unadopted noTwin =>
      obtain rfl : file = path := same
      exact absurd onDisk (absent bytes)

/-- No change names a base path that is not on disk, except its adoption or its
deletion. -/
theorem Reports.of_listed_absent (listed : detector.Listed base path stamp)
    (absent : ∀ bytes, ¬ detector.OnDisk tree path bytes)
    (reports : detector.Reports tree base change) (same : change.path = path) :
    (∃ file bytes, detector.Adopts tree base file bytes path stamp ∧
        detector.unchanged path stamp bytes = false) ∨
      ((∀ file bytes, ¬ detector.Adopts tree base file bytes path stamp) ∧
        ∀ other otherStamp, detector.Listed base other otherStamp →
          detector.foldCase other = detector.foldCase path →
            ∀ bytes, ¬ detector.OnDisk tree other bytes) := by
  cases reports with
  | @modified file content otherStamp there small otherListed changed =>
      obtain rfl : file = path := same
      exact absurd there (absent content)
  | @recased file content key otherStamp adopts small changed =>
      obtain rfl : key = path := same
      have sameStamp := adopts.listed.unique listed
      subst sameStamp
      exact .inl ⟨file, content, adopts, changed⟩
  | @added file content there small unlisted fresh =>
      obtain rfl : file = path := same
      exact absurd there (absent content)
  | @deleted file otherStamp otherListed gone unadopted noTwin =>
      obtain rfl : file = path := same
      have sameStamp := otherListed.unique listed
      subst sameStamp
      exact .inr ⟨unadopted, noTwin⟩

section

variable (succeeded : detector.detectLocalChangesWith tree base = .ok result)
include succeeded

/-- What stands at a path is what the changes make of the base there. -/
theorem Stands.applied {digest : Sha} (stands : detector.Stands tree base path digest) :
    Keyed.applied (result.changes.map LocalChange.edit) (detector.baseDigest base) path =
      some digest := by
  cases stands with
  | @listed path bytes stamp onDisk small listed =>
      unfold keptDigest
      cases same : detector.unchanged path stamp bytes with
      | true =>
          rw [applied_of_silent succeeded]
          · exact baseDigest_eq_some.mpr ⟨stamp, listed, rfl⟩
          · intro change reports named
            have changed := (reports.of_listed_onDisk onDisk listed named).2
            rw [same] at changed
            cases changed
      | false => exact applied_of_reports succeeded (.modified onDisk small listed same)
  | @adopted file bytes key stamp adopts =>
      unfold keptDigest
      cases same : detector.unchanged path stamp bytes with
      | true =>
          rw [applied_of_silent succeeded]
          · exact baseDigest_eq_some.mpr ⟨stamp, adopts.listed, rfl⟩
          · intro change reports named
            obtain ⟨other, content, otherAdopts, changed⟩ | ⟨unadopted, -⟩ :=
              reports.of_listed_absent adopts.listed adopts.absent named
            · obtain rfl : other = file := otherAdopts.same_file adopts
              rw [otherAdopts.unmatched.onDisk.unique adopts.unmatched.onDisk, same] at changed
              cases changed
            · exact unadopted file bytes adopts
      | false =>
          exact applied_of_reports succeeded
            (.recased adopts (adopts.isSmall succeeded) same)
  | fresh onDisk small unlisted fresh =>
      exact applied_of_reports succeeded (.added onDisk small unlisted fresh)
  | @large path bytes stamp onDisk large listed =>
      rw [applied_of_silent succeeded]
      · exact baseDigest_eq_some.mpr ⟨stamp, listed, rfl⟩
      · intro change reports named
        exact large (reports.of_listed_onDisk onDisk listed named).1
  | @twin path stamp other otherStamp bytes listed absent otherListed alike onDisk =>
      rw [applied_of_silent succeeded]
      · exact baseDigest_eq_some.mpr ⟨stamp, listed, rfl⟩
      · intro change reports named
        obtain ⟨file, content, adopts, -⟩ | ⟨-, noTwin⟩ :=
          reports.of_listed_absent listed absent named
        · obtain rfl := adopts.single other otherStamp otherListed alike
          exact absent bytes onDisk
        · exact noTwin other otherStamp otherListed alike bytes onDisk

/-- The changes make of the base just what stands on disk. -/
theorem applied_iff_stands (path : Path) (digest : Sha) :
    Keyed.applied (result.changes.map LocalChange.edit) (detector.baseDigest base) path =
      some digest ↔ detector.Stands tree base path digest := by
  refine ⟨fun isSome => ?_, fun stands => stands.applied succeeded⟩
  suffices there : ∃ held, detector.Stands tree base path held by
    obtain ⟨held, stands⟩ := there
    have same : digest = held := by
      simpa [isSome] using stands.applied succeeded
    exact same ▸ stands
  by_cases named : ∃ change, detector.Reports tree base change ∧ change.path = path
  · obtain ⟨change, reports, rfl⟩ := named
    have held := applied_of_reports succeeded reports
    cases reports with
    | modified onDisk small listed changed => exact ⟨_, .listed onDisk small listed⟩
    | recased adopts small changed => exact ⟨_, .adopted adopts⟩
    | added onDisk small unlisted fresh => exact ⟨_, .fresh onDisk small unlisted fresh⟩
    | deleted listed absent unadopted noTwin =>
        rw [held] at isSome
        cases isSome
  · have silent : ∀ change, detector.Reports tree base change → change.path ≠ path :=
      fun change reports same => named ⟨change, reports, same⟩
    rw [applied_of_silent succeeded silent, baseDigest_eq_some] at isSome
    obtain ⟨stamp, listed, -⟩ := isSome
    by_cases onDisk : ∃ bytes, detector.OnDisk tree path bytes
    · obtain ⟨bytes, onDisk⟩ := onDisk
      by_cases small : Small bytes
      · exact ⟨_, .listed onDisk small listed⟩
      · exact ⟨_, .large onDisk small listed⟩
    · have absent : ∀ bytes, ¬ detector.OnDisk tree path bytes := not_exists.mp onDisk
      by_cases adopted : ∃ file bytes, detector.Adopts tree base file bytes path stamp
      · obtain ⟨file, bytes, adopts⟩ := adopted
        exact ⟨_, .adopted adopts⟩
      · by_cases twin : ∃ other otherStamp bytes, detector.Listed base other otherStamp ∧
            detector.foldCase other = detector.foldCase path ∧
              detector.OnDisk tree other bytes
        · obtain ⟨other, otherStamp, bytes, otherListed, alike, there⟩ := twin
          exact ⟨_, .twin listed absent otherListed alike there⟩
        · refine absurd rfl (silent (.deleted path) (.deleted listed absent ?_ ?_))
          · exact fun file bytes adopts => adopted ⟨file, bytes, adopts⟩
          · intro other otherStamp otherListed alike bytes there
            exact twin ⟨other, otherStamp, bytes, otherListed, alike, there⟩

end

section SameText

variable (detector) in
/-- The base describes contents: its stamps, and the LF digests next to them. -/
structure Describes (base : Snapshot) (contents : Path → Option Bytes) : Prop where
  stamped : ∀ path stamp, base.lookup path = some stamp → ∃ content,
    contents path = some content ∧ stamp = ⟨detector.sha256Hex content, content.length⟩
  digested : ∀ digests path digest, detector.lfDigests = some digests →
    digests.lookup path = some digest → ∃ content text, contents path = some content ∧
      fromUtf8 content = some text ∧ digest = detector.sha256Hex (toUtf8 (toLf text))

/-- Two contents that are the same but for their line endings. -/
def SameText (disk content : Bytes) : Prop :=
  disk = content ∨ ∃ left right, fromUtf8 disk = some left ∧ fromUtf8 content = some right ∧
    toLf left = toLf right

/-- A file left out of the changes reads as its base file. -/
theorem sameText_of_unchanged (injective : Function.Injective detector.sha256Hex)
    {contents : Path → Option Bytes} (describes : detector.Describes base contents)
    {path : Path} {stamp : BaseStamp} (recorded : base.lookup path = some stamp)
    {disk : Bytes} (unchanged : detector.unchanged path stamp disk = true) :
    ∃ content, contents path = some content ∧ SameText disk content := by
  obtain ⟨content, isContent, rfl⟩ := describes.stamped path stamp recorded
  refine ⟨content, isContent, ?_⟩
  simp only [Detector.unchanged, sameAsBase, Bool.or_eq_true, Bool.and_eq_true,
    decide_eq_true_eq] at unchanged
  obtain (⟨-, digest⟩ | digest) | ⟨-, sameText⟩ := unchanged
  · exact .inl (injective digest).symm
  · obtain ⟨digests, areDigests, recordedDigest⟩ := Option.bind_eq_some_iff.mp digest
    obtain ⟨other, text, isOther, isText, isDigest⟩ :=
      describes.digested digests path _ areDigests recordedDigest
    obtain rfl : content = other := Option.some.inj (isContent.symm.trans isOther)
    have written : disk = toUtf8 (toLf text) := injective isDigest
    refine .inr ⟨toLf text, text, ?_, isText, toLf_idem text⟩
    rw [written, fromUtf8_toUtf8]
  · unfold sameTextAsBase at sameText
    obtain ⟨copies, -, agrees⟩ := (Option.any_eq_true _ _).mp sameText
    rw [matchesBaseAsLf, Bool.and_eq_true] at agrees
    obtain ⟨-, agrees⟩ := agrees
    split at agrees
    · cases agrees
    · rename_i copy isCopy
      split at agrees
      · cases agrees
      · rename_i described
        obtain rfl : copy = content := injective (not_not.mp described)
        split at agrees
        · rename_i left right isLeft isRight
          exact .inr ⟨left, right, isLeft, isRight, of_decide_eq_true agrees⟩
        · cases agrees

end SameText

variable (detector tree base) in
/-- What detection owes its caller. -/
structure Detected (changes : List LocalChange) : Prop where
  once : (changes.map LocalChange.path).Nodup
  takesPart : ∀ change ∈ changes, detector.policy.takesPart change.path = true
  gone : ∀ path, .deleted path ∈ changes →
    (∃ stamp, detector.Listed base path stamp) ∧ tree.lookup path = none ∧
      (∀ file bytes, ¬ detector.SingleUnmatched tree base file bytes path) ∧
        ∀ other stamp, detector.Listed base other stamp →
          detector.foldCase other = detector.foldCase path → tree.lookup other = none
  large : ∀ path bytes, tree.lookup path = some bytes → ¬ Small bytes →
    ∀ change ∈ changes, change.path ≠ path
  edited : Function.Injective detector.sha256Hex → ∀ contents, detector.Describes base contents →
    ∀ path bytes stamp content, detector.OnDisk tree path bytes → Small bytes →
      detector.Listed base path stamp → contents path = some content →
        ¬ SameText bytes content → .modified path (detector.sha256Hex bytes) ∈ changes
  applied : ∀ path digest,
    Keyed.applied (changes.map LocalChange.edit) (detector.baseDigest base) path = some digest ↔
      detector.Stands tree base path digest

theorem Reports.takesPart (reports : detector.Reports tree base change) :
    detector.policy.takesPart change.path = true := by
  cases reports with
  | modified onDisk _ _ _ => exact onDisk.2
  | recased adopts _ _ => exact adopts.listed.2
  | added onDisk _ _ _ => exact onDisk.2
  | deleted listed _ _ _ => exact listed.2

theorem gone_of_deleted (succeeded : detector.detectLocalChangesWith tree base = .ok result)
    (reported : .deleted path ∈ result.changes) :
    (∃ stamp, detector.Listed base path stamp) ∧ tree.lookup path = none ∧
      (∀ file bytes, ¬ detector.SingleUnmatched tree base file bytes path) ∧
        ∀ other stamp, detector.Listed base other stamp →
          detector.foldCase other = detector.foldCase path → tree.lookup other = none := by
  have reports := (mem_changes succeeded).mp reported
  cases reports with
  | @deleted _ stamp listed absent unadopted noTwin =>
      have missing : ∀ other, detector.policy.takesPart other = true →
          (∀ bytes, ¬ detector.OnDisk tree other bytes) → tree.lookup other = none := by
        intro other takes nowhere
        rw [Option.eq_none_iff_forall_ne_some]
        exact fun bytes found => nowhere bytes ⟨found, takes⟩
      refine ⟨⟨stamp, listed⟩, missing path listed.2 absent, ?_, ?_⟩
      · intro file bytes alone
        refine unadopted file bytes ⟨alone, listed, ?_, absent⟩
        intro other otherStamp otherListed alike
        by_contra different
        exact unfolded_of_deleted succeeded reported otherListed alike different alone.onDisk
          alone.folds
      · intro other otherStamp otherListed alike
        exact missing other otherListed.2 (noTwin other otherStamp otherListed alike)

theorem large_of_reports (there : tree.lookup path = some bytes) (large : ¬ Small bytes)
    (reports : detector.Reports tree base change) : change.path ≠ path := by
  intro same
  have onDisk : detector.OnDisk tree path bytes := ⟨there, same ▸ reports.takesPart⟩
  by_cases listed : ∃ stamp, detector.Listed base path stamp
  · obtain ⟨stamp, listed⟩ := listed
    exact large (reports.of_listed_onDisk onDisk listed same).1
  · cases reports with
    | @modified file content stamp _ _ otherListed _ => exact listed ⟨stamp, same ▸ otherListed⟩
    | @recased file content key stamp adopts _ _ => exact listed ⟨stamp, same ▸ adopts.listed⟩
    | @added file content other small _ _ =>
        obtain rfl : file = path := same
        exact large (onDisk.unique other ▸ small)
    | @deleted file stamp otherListed _ _ _ => exact listed ⟨stamp, same ▸ otherListed⟩

/-- Change detection proposes no phantom deletion and misses no edit. -/
theorem detection_faithful {detector : Detector} {tree : Tree} {base : Snapshot}
    {result : LocalChanges}
    (succeeded : detector.detectLocalChangesWith tree base = .ok result) :
    detector.Detected tree base result.changes where
  once := nodup_changes succeeded
  takesPart change member := ((mem_changes succeeded).mp member).takesPart
  gone _ reported := gone_of_deleted succeeded reported
  large _ _ there large _ member := large_of_reports there large ((mem_changes succeeded).mp member)
  edited := by
    intro injective contents describes path bytes stamp content onDisk small listed isContent
      different
    refine (mem_changes succeeded).mpr (.modified onDisk small listed ?_)
    cases same : detector.unchanged path stamp bytes with
    | false => rfl
    | true =>
        obtain ⟨other, isOther, sameText⟩ :=
          sameText_of_unchanged injective describes listed.1 same
        rw [isContent] at isOther
        cases isOther
        exact absurd sameText different
  applied := applied_iff_stands succeeded

section Spellings

/-- A digest that spells the content out. -/
def spelledOut (bytes : Bytes) : Sha :=
  String.ofList (bytes.map fun byte => Char.ofNat byte.toNat)

theorem spelledOut_injective : Function.Injective spelledOut := by
  intro left right same
  refine List.map_injective_iff.mpr ?_ (String.ofList_injective same)
  intro one two sameChar
  have kept : ∀ byte : UInt8, (Char.ofNat byte.toNat).toNat = byte.toNat := by
    intro byte
    have bound := byte.toNat_lt
    have valid : byte.toNat.isValidChar := .inl (by omega)
    rw [Char.ofNat, dif_pos valid]
    rfl
  have sameNat := congrArg Char.toNat sameChar
  rw [kept, kept] at sameNat
  exact UInt8.toNat_inj.mp sameNat

/-- A domain whose indexes stay local, on a disk that keeps every spelling. -/
def localIndexes : Detector where
  sha256Hex := spelledOut
  foldCase path := path.map Char.toLower
  policy := ⟨.onlyLocal, .off⟩
  baseCopies := none
  lfDigests := none

def file (name content : String) : Σ _ : Path, Bytes :=
  ⟨name.toList, toUtf8 content.toList⟩

def entry (name content : String) : Σ _ : Path, BaseStamp :=
  ⟨name.toList, ⟨content, content.length⟩⟩

/-- An edit under another spelling, an addition and a deletion. -/
theorem detection_faithful_recased :
    localIndexes.Detected [file "Notes.md" "new", file "fresh.md" "x"].toAList
      [entry "notes.md" "old", entry "gone.md" "y"].toAList
      [.added "fresh.md".toList "x", .deleted "gone.md".toList,
        .modified "notes.md".toList "new"] := by
  have succeeded : localIndexes.detectLocalChangesWith
      [file "Notes.md" "new", file "fresh.md" "x"].toAList
      [entry "notes.md" "old", entry "gone.md" "y"].toAList =
        .ok ⟨[.added "fresh.md".toList "x", .deleted "gone.md".toList,
          .modified "notes.md".toList "new"], [], [("notes.md".toList, "Notes.md".toList)]⟩ := by
    decide
  exact detection_faithful succeeded

/-- A deletion beside a base path that folds alike and is on disk: the generated
index takes no part, so it keeps no other spelling from being deleted. -/
theorem deletes_beside_local_index :
    ∃ detector : Detector, Function.Injective detector.sha256Hex ∧
      ∃ (tree : Tree) (base : Snapshot) (result : LocalChanges),
        detector.detectLocalChangesWith tree base = .ok result ∧
          ∃ path other, .deleted path ∈ result.changes ∧ other ≠ path ∧
            (base.lookup other).isSome ∧ detector.foldCase other = detector.foldCase path ∧
              (tree.lookup other).isSome :=
  ⟨localIndexes, spelledOut_injective, [file "index.md" "new"].toAList,
    [entry "Index.md" "old", entry "index.md" "new"].toAList,
    ⟨[.deleted "Index.md".toList], [], []⟩, by decide,
    "Index.md".toList, "index.md".toList, by decide⟩

end Spellings

end Detector

end Crystalline.Remote
