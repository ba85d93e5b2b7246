import Crystalline.Overlay.Calls
import Crystalline.Sync.Layout

/-!
# The journal as a map

What an actor holds at a path is decided by two files.  A call changes no others
and passes through one state between the old pair and the new one; read back, that state is
the old entry, the new one or none.
-/

namespace Crystalline.Overlay

open Text Programs

section

open Sync (AssetPathError validateAssetPath attachmentMime attachmentTypes afterLastDot)

variable {host : Host} {stateDir : Place} {domain actor path : Text}

/-- The texts of `AssetPathError`. -/
def assetPathMessage : AssetPathError → Text
  | .notUnderAssets => "an attachment path must start with `assets/`".toList
  | .emptySegment => "an attachment path must not hold an empty segment".toList
  | .dotSegment => "an attachment path must not hold a `.` or `..` segment".toList
  | .hiddenSegment => "an attachment path must not hold a segment starting with `.`".toList
  | .badCharacter => "an attachment path must not hold a backslash, a colon, a `#`, a `%`, ".toList ++
      "a space, a parenthesis or a control character".toList
  | .tooLong => "an attachment path must be at most 256 bytes".toList
  | .disallowedExtension => "an attachment must carry an allowlisted file extension".toList

/-- `FILES_DIR`. -/
def filesFolder : Text := "files".toList

/-- `files_dir`. -/
def filesDir (host : Host) (stateDir : Place) (domain actor : Text) : Except IoError Place := do
  return (← actorDir host stateDir domain actor) ++ [filesFolder]

/-- `overlay_files::file`. -/
def assetFile (host : Host) (stateDir : Place) (domain actor path : Text) :
    Except IoError Place :=
  match validateAssetPath path with
  | .error error => .error (.invalidInput ("the files overlay refuses the path '".toList ++
      host.escapeDebug path ++ "': ".toList ++ assetPathMessage error))
  | .ok _ => do return (← filesDir host stateDir domain actor) ++ segments path

/-- The letters the extensions of attachments end with. -/
def assetEndings : List Char := "gfpxtsvnl".toList

variable {name : Text} {char : Char}

theorem getLast_takeWhile_reverse (kept : Char → Bool)
    (last : ((name.reverse.takeWhile kept).reverse).getLast? = some char) :
    name.getLast? = some char := by
  rw [List.getLast?_reverse] at last
  rw [← List.head?_reverse]
  cases turned : name.reverse with
  | nil =>
      rw [turned] at last
      cases last
  | cons first rest =>
      rw [turned, List.takeWhile_cons] at last
      split at last
      · exact last
      · cases last

theorem getLast_of_attachmentMime (allowed : (attachmentMime name).isSome = true) :
    ∃ char, name.getLast? = some char ∧ char.toLower ∈ assetEndings := by
  obtain ⟨mime, found⟩ := Option.isSome_iff_exists.mp allowed
  rw [attachmentMime, Option.bind_eq_bind, Option.bind_eq_some_iff] at found
  obtain ⟨extension, isExtension, found⟩ := found
  rw [Option.bind_eq_bind, Option.bind_eq_some_iff] at found
  obtain ⟨row, isRow, -⟩ := found
  have listed := List.mem_of_find?_eq_some isRow
  have isMatch := List.find?_some isRow
  have same : row.1.toList = extension.map Char.toLower := of_decide_eq_true isMatch
  have ends : ∀ row ∈ attachmentTypes,
      row.1.toList.getLast?.any (assetEndings.contains ·) = true := by decide
  obtain ⟨lowered, last, member⟩ := Option.any_eq_true _ _ |>.mp (ends row listed)
  rw [same, List.getLast?_map] at last
  obtain ⟨char, isLast, rfl⟩ := Option.map_eq_some_iff.mp last
  refine ⟨char, ?_, List.contains_iff_mem.mp member⟩
  unfold afterLastDot at isExtension
  split at isExtension
  · obtain rfl := Option.some.inj isExtension
    exact getLast_takeWhile_reverse _ isLast
  · cases isExtension

theorem getLast_of_segments {path : Text}
    (last : ((segments path).getLastD []).getLast? = some char) : path.getLast? = some char := by
  obtain ⟨front, name, shape⟩ :=
    List.eq_nil_or_concat (segments path) |>.resolve_left (segments_ne_nil path)
  rw [List.concat_eq_append] at shape
  rw [shape, List.getLastD_concat] at last
  rw [← join_segments path, shape]
  cases front with
  | nil => simpa [join, List.intercalate] using last
  | cons first front =>
      rw [join_concat (List.cons_ne_nil _ _), List.getLast?_append, List.getLast?_cons, last]
      rfl

theorem getLast_of_asset (valid : validateAssetPath path = .ok ()) :
    ∃ char, path.getLast? = some char ∧ char.toLower ∈ assetEndings := by
  unfold validateAssetPath at valid
  split at valid
  · cases valid
  · next rest below =>
      obtain rfl := stripPrefix_eq_some_iff.mp below
      split at valid
      · cases valid
      · split at valid
        · cases valid
        · split at valid
          · cases valid
          · split at valid
            · cases valid
            · next allowed =>
                rw [Bool.not_eq_true, Option.isNone_eq_false_iff] at allowed
                obtain ⟨char, last, member⟩ := getLast_of_attachmentMime allowed
                refine ⟨char, ?_, member⟩
                rw [List.getLast?_append, getLast_of_segments last]
                rfl

theorem segments_cons (clean : '/' ∉ name) (path : Text) :
    segments (name ++ '/' :: path) = name :: segments path := by
  have whole : name ++ '/' :: path = join (name :: segments path) := by
    rw [join, List.intercalate_cons_of_ne_nil (segments_ne_nil path), ← join, join_segments]
    simp
  rw [whole]
  refine segments_join (List.cons_ne_nil _ _) fun other member => ?_
  rcases List.mem_cons.mp member with rfl | later
  · exact clean
  · exact slash_not_mem_segments other later

/-- An attachment stands at a path of its actor's folder that no draft has. -/
theorem place_of_assetFile {place : Place}
    (found : assetFile host stateDir domain actor path = .ok place) :
    ∃ folder, domainDir host stateDir domain = .ok folder ∧
      place = folder ++ [actor] ++ segments (filesFolder ++ '/' :: path) ∧
        ∃ char, path.getLast? = some char ∧ char.toLower ∈ assetEndings := by
  unfold assetFile at found
  cases checked : validateAssetPath path with
  | error error =>
      rw [checked] at found
      cases found
  | ok valid =>
      rw [checked] at found
      dsimp only at found
      rw [filesDir, actorDir] at found
      cases isFolder : domainDir host stateDir domain with
      | error error =>
          rw [isFolder] at found
          cases found
      | ok folder =>
          rw [isFolder] at found
          cases named : oneSegment host actor "actor".toList with
          | error error =>
              change ((do return folder ++ [← oneSegment host actor "actor".toList] :
                Except IoError Place) >>= _) >>= _ = _ at found
              rw [named] at found
              cases found
          | ok name =>
              have isName : name = actor := by
                have admitted : (oneSegment host actor "actor".toList).isOk = true := by
                  rw [named]
                  rfl
                rw [oneSegment_ok admitted] at named
                exact (Except.ok.inj named).symm
              change ((do return folder ++ [← oneSegment host actor "actor".toList] :
                Except IoError Place) >>= _) >>= _ = _ at found
              rw [named, isName] at found
              refine ⟨folder, rfl, ?_, getLast_of_asset checked⟩
              rw [segments_cons (by decide), ← Except.ok.inj found]
              simp

/-- Neither the file of an attachment nor its sidecar is one of a draft's. -/
theorem asset_not_mem_ownPaths {draft asset : Text} (markdown : isMd draft = true)
    (last : asset.getLast? = some char) (ending : char.toLower ∈ assetEndings) :
    asset ∉ ownPaths host draft ∧ asset ++ tombstoneSuffix ∉ ownPaths host draft := by
  have notMarkdown : isMd asset = false := by
    rw [Bool.eq_false_iff]
    intro isMarkdown
    obtain ⟨letter, isLast, lowered⟩ := getLast_of_isMd isMarkdown
    rw [last] at isLast
    obtain rfl := Option.some.inj isLast
    rw [lowered] at ending
    exact absurd ending (by decide)
  have notSidecar : ∀ other, asset ≠ other ++ tombstoneSuffix := by
    rintro other rfl
    rw [getLast_tombstoneSuffix] at last
    obtain rfl := Option.some.inj last
    exact absurd ending (by decide)
  have notTemp : ∀ other, asset ≠ other ++ tempSuffix host := by
    rintro other rfl
    obtain ⟨letter, isLast, isChar⟩ := getLast_tempSuffix host other
    rw [last] at isLast
    obtain rfl := Option.some.inj isLast
    rcases isChar with rfl | digit
    · exact absurd ending (by decide)
    · have lowered := toLower_of_isDigit digit
      have letters : (assetEndings.all fun letter => !letter.isDigit) = true := by decide
      have notDigit := List.all_eq_true.mp letters _ ending
      rw [lowered, digit] at notDigit
      cases notDigit
  constructor
  · intro member
    simp only [ownPaths, List.mem_cons, List.not_mem_nil, or_false] at member
    rcases member with rfl | same | same | same
    · rw [notMarkdown] at markdown
      cases markdown
    · exact notSidecar _ same
    · exact notTemp _ same
    · exact notTemp _ same
  · intro member
    obtain rfl := tombstone_mem_ownPaths markdown member
    rw [notMarkdown] at markdown
    cases markdown

end

/-- What a call makes of an entry. -/
inductive Change where
  | write (content : Text)
  | tombstone
  | clear
  deriving DecidableEq, Repr

/-- A call for one actor and one path. -/
structure Edit where
  actor : Text
  path : Text
  change : Change
  deriving DecidableEq, Repr

/-- The journal function of an edit. -/
def perform (host : Host) (stateDir : Place) (domain : Text) (edit : Edit) : OnFiles Unit :=
  match edit.change with
  | .write content => journalWrite host stateDir domain edit.actor edit.path content
  | .tombstone => journalTombstone host stateDir domain edit.actor edit.path
  | .clear => journalClear host stateDir domain edit.actor edit.path

/-- What an actor holds at a path after a change of it. -/
def Change.holds : Change → Option (Option Text)
  | .write content => some (some content)
  | .tombstone => some none
  | .clear => none

/-- What is read of a draft's file and its sidecar. -/
def readPair (pair : Option Bytes × Option Bytes) : Option (Option Text) :=
  match pair.1.bind fromUtf8 with
  | some text => some (some text)
  | none => if pair.2.isSome then some none else none

/-- The pair a change ends with. -/
def Change.pair : Change → Option Bytes × Option Bytes
  | .write content => (some (toUtf8 content), none)
  | .tombstone => (none, some [])
  | .clear => (none, none)

/-- The pairs a change passes through. -/
def Change.pairs (change : Change) (draft sidecar : Option Bytes) :
    List (Option Bytes × Option Bytes) :=
  match change with
  | .write content => [(draft, sidecar), (some (toUtf8 content), sidecar), change.pair]
  | .tombstone => [(draft, sidecar), (none, sidecar), change.pair]
  | .clear => [(draft, sidecar), (draft, none), change.pair]

theorem readPair_pair (change : Change) : readPair change.pair = change.holds := by
  cases change with
  | write content => simp [readPair, Change.pair, Change.holds]
  | tombstone => rfl
  | clear => rfl

/-- No pair on the way reads as anything but the old entry, the new one or none. -/
theorem readPair_pairs {change : Change} {draft sidecar : Option Bytes}
    {pair : Option Bytes × Option Bytes} (member : pair ∈ change.pairs draft sidecar) :
    readPair pair = readPair (draft, sidecar) ∨ readPair pair = change.holds ∨
      readPair pair = none := by
  cases change with
  | write content =>
      simp only [Change.pairs, List.mem_cons, List.not_mem_nil, or_false] at member
      rcases member with rfl | rfl | rfl
      · exact .inl rfl
      · right
        left
        simp [readPair, Change.holds]
      · exact .inr (.inl (readPair_pair _))
  | tombstone =>
      simp only [Change.pairs, List.mem_cons, List.not_mem_nil, or_false] at member
      rcases member with rfl | rfl | rfl
      · exact .inl rfl
      · right
        cases sidecar with
        | none => exact .inr rfl
        | some bytes => exact .inl rfl
      · exact .inr (.inl (readPair_pair _))
  | clear =>
      simp only [Change.pairs, List.mem_cons, List.not_mem_nil, or_false] at member
      rcases member with rfl | rfl | rfl
      · exact .inl rfl
      · cases isText : draft.bind fromUtf8 with
        | some text =>
            left
            rw [readPair, readPair, isText]
        | none =>
            right
            right
            rw [readPair, isText]
            rfl
      · exact .inr (.inl (readPair_pair _))

variable {host : Host} {stateDir : Place} {domain actor path : Text} {file : Place}
  {disk now last : FileSystem}

/-- The files a call for one entry may touch. -/
def touched (host : Host) (file : Place) : List Place :=
  [file, tombstoneOf file, tempSibling host file, tempSibling host (tombstoneOf file)]

theorem touched_segments (root : Place) (path : Text) :
    touched host (root ++ segments path) = (ownPaths host path).map (root ++ segments ·) := by
  rw [touched, tombstoneOf_segments, tempSibling_segments, tempSibling_segments]
  rfl

theorem nodup_ownPaths (markdown : isMd path = true) : (ownPaths host path).Nodup := by
  have grows : ∀ (text : Text) {suffix : Text}, suffix ≠ [] → text ≠ text ++ suffix := by
    intro text suffix some same
    exact some (List.self_eq_append_right.mp same)
  have tombstone : tombstoneSuffix ≠ [] := by decide
  have temp : tempSuffix host ≠ [] := by simp [tempSuffix]
  simp only [ownPaths, List.nodup_cons, List.mem_cons, List.not_mem_nil, or_false, not_or,
    List.nodup_nil, and_true, not_false_eq_true]
  refine ⟨⟨grows path tombstone, markdown_ne_temp host markdown, markdown_ne_temp host markdown⟩,
    ⟨tombstone_ne_temp host _ _, grows _ temp⟩, fun same => ?_⟩
  exact grows path tombstone (List.append_cancel_right same)

theorem nodup_touched (found : entryPath host stateDir domain actor path = .ok file) :
    (touched host file).Nodup := by
  obtain ⟨admitted, folder, -, rfl⟩ := admitted_of_entryPath found
  rw [touched_segments]
  exact (nodup_ownPaths admitted.markdown).map fun _ _ same => place_inj.mp same

theorem mem_touched {root : Place} {other text : Text}
    (member : root ++ [other] ++ segments text ∈ touched host (root ++ [actor] ++ segments path)) :
    other = actor ∧ text ∈ ownPaths host path := by
  rw [touched_segments] at member
  obtain ⟨own, isOwn, same⟩ := List.mem_map.mp member
  have heads := same
  simp only [List.append_assoc, List.append_cancel_left_eq, List.singleton_append,
    List.cons.injEq] at heads
  obtain ⟨rfl, -⟩ := heads
  exact ⟨rfl, place_inj.mp same ▸ isOwn⟩

theorem outside_touched {other otherPath : Text} {otherFile : Place}
    (found : entryPath host stateDir domain actor path = .ok file)
    (isOther : entryPath host stateDir domain other otherPath = .ok otherFile)
    (different : ¬ (other = actor ∧ otherPath = path)) :
    otherFile ∉ touched host file ∧ tombstoneOf otherFile ∉ touched host file := by
  obtain ⟨admitted, folder, isFolder, rfl⟩ := admitted_of_entryPath found
  obtain ⟨otherAdmitted, otherFolder, isOtherFolder, rfl⟩ := admitted_of_entryPath isOther
  rw [isFolder] at isOtherFolder
  obtain rfl := Except.ok.inj isOtherFolder
  constructor
  · intro member
    obtain ⟨sameActor, isOwn⟩ := mem_touched member
    exact different ⟨sameActor, markdown_mem_ownPaths otherAdmitted.markdown isOwn⟩
  · intro member
    rw [tombstoneOf_segments] at member
    obtain ⟨sameActor, isOwn⟩ := mem_touched member
    exact different ⟨sameActor, tombstone_mem_ownPaths admitted.markdown isOwn⟩

theorem asset_outside_touched {other asset : Text} {place : Place}
    (found : entryPath host stateDir domain actor path = .ok file)
    (isAsset : assetFile host stateDir domain other asset = .ok place) :
    place ∉ touched host file ∧ tombstoneOf place ∉ touched host file := by
  obtain ⟨admitted, folder, isFolder, rfl⟩ := admitted_of_entryPath found
  obtain ⟨otherFolder, isOtherFolder, rfl, char, ends, ending⟩ := place_of_assetFile isAsset
  rw [isFolder] at isOtherFolder
  obtain rfl := Except.ok.inj isOtherFolder
  have isLast : (filesFolder ++ '/' :: asset).getLast? = some char := by
    rw [List.getLast?_append, List.getLast?_cons, ends]
    rfl
  have outside : filesFolder ++ '/' :: asset ∉ ownPaths host path ∧
      filesFolder ++ '/' :: asset ++ tombstoneSuffix ∉ ownPaths host path :=
    asset_not_mem_ownPaths admitted.markdown isLast ending
  constructor
  · exact fun member => outside.1 (mem_touched member).2
  · rw [tombstoneOf_segments]
    exact fun member => outside.2 (mem_touched member).2

end Crystalline.Overlay
