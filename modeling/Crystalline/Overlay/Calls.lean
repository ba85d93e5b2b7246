import Crystalline.Overlay.Reading

/-!
# What one call leaves

A save and a removal change one file, a save its temporary sibling too.  Until
either is through the file is what it was or already what it will be, so a call
that is cut off leaves one of the states its steps pass through.
-/

namespace Crystalline.Overlay

open Text Programs

section

variable {host : Host} {stateDir : Place} {domain actor path : Text} {disk : FileSystem}
  {listing : Listing} {entry : JournalEntry}

/-- What an actor holds at a path: a draft's text, a deletion, or nothing.  The
draft is taken where both stand. -/
def held (host : Host) (disk : FileSystem) (stateDir : Place) (domain actor path : Text) :
    Option (Option Text) :=
  match entryPath host stateDir domain actor path with
  | .error _ => none
  | .ok file =>
    match (disk.files.lookup file).bind fromUtf8 with
    | some text => some (some text)
    | none => if tombstoneOf file ∈ disk.files then some none else none

/-- The names a draft of an actor can have. -/
structure Admitted (host : Host) (actor path : Text) : Prop where
  actor : (oneSegment host actor "actor".toList).isOk = true
  within : isWithinDomain path = true
  markdown : isMd path = true

theorem oneSegment_ok {name what : Text} (admitted : (oneSegment host name what).isOk = true) :
    oneSegment host name what = .ok name := by
  unfold oneSegment at admitted ⊢
  split at admitted
  · cases admitted
  · next valid => rw [if_neg valid]

variable {folder : Place}

theorem entryPath_of_admitted (isFolder : domainDir host stateDir domain = .ok folder)
    (admitted : Admitted host actor path) :
    entryPath host stateDir domain actor path = .ok (folder ++ [actor] ++ segments path) := by
  rw [entryPath, admitted.within, admitted.markdown, if_neg (by simp), actorDir, isFolder]
  change (do return folder ++ [← oneSegment host actor "actor".toList] : Except IoError Place) >>=
    _ = _
  rw [oneSegment_ok admitted.actor]
  rfl

theorem admitted_of_entryPath {file : Place}
    (found : entryPath host stateDir domain actor path = .ok file) :
    Admitted host actor path ∧ ∃ folder, domainDir host stateDir domain = .ok folder ∧
      file = folder ++ [actor] ++ segments path := by
  have whole := found
  unfold entryPath at found
  split at found
  · cases found
  · next valid =>
      rw [Bool.or_eq_true, not_or, Bool.not_eq_true', Bool.not_eq_true', Bool.not_eq_false,
        Bool.not_eq_false] at valid
      cases isFolder : domainDir host stateDir domain with
      | error error =>
          rw [actorDir, isFolder] at found
          cases found
      | ok folder =>
          have isActor : (oneSegment host actor "actor".toList).isOk = true := by
            rw [actorDir, isFolder] at found
            cases named : oneSegment host actor "actor".toList with
            | ok name => rfl
            | error error =>
                change ((do return folder ++ [← oneSegment host actor "actor".toList] :
                  Except IoError Place) >>= _) = _ at found
                rw [named] at found
                cases found
          have admitted : Admitted host actor path := ⟨isActor, valid.1, valid.2⟩
          rw [entryPath_of_admitted isFolder admitted] at whole
          exact ⟨admitted, folder, rfl, (Except.ok.inj whole).symm⟩

theorem slash_not_mem_tombstoneSuffix : '/' ∉ tombstoneSuffix := by decide

theorem tombstoneOf_segments (root : Place) (path : Text) :
    tombstoneOf (root ++ segments path) = root ++ segments (path ++ tombstoneSuffix) :=
  extendName_segments slash_not_mem_tombstoneSuffix root path

theorem entryPath_error_of_domain {error : IoError}
    (refused : domainDir host stateDir domain = .error error) :
    ∃ refusal, entryPath host stateDir domain actor path = .error refusal := by
  cases found : entryPath host stateDir domain actor path with
  | error refusal => exact ⟨refusal, rfl⟩
  | ok file =>
      obtain ⟨-, folder, isFolder, -⟩ := admitted_of_entryPath found
      rw [refused] at isFolder
      cases isFolder

/-- What the walk reads before it is sorted: every file under an actor's folder
that reads as an entry. -/
theorem mem_walked :
    entry ∈ (((listing.order folder (disk.names folder)).filter fun actor =>
        disk.isDir (folder ++ [actor]) && (oneSegment host actor "actor".toList).isOk).map
          fun actor => collect listing disk actor disk.depth (folder ++ [actor]) []).flatMap
            Prod.fst ↔
      (oneSegment host entry.actor "actor".toList).isOk = true ∧ ∃ rest bytes, rest ≠ [] ∧
        disk.files.lookup (folder ++ [entry.actor] ++ rest) = some bytes ∧
          (readFile entry.actor (join rest) bytes).1 = some entry := by
  have deep : ∀ actor file, file ∈ disk.files → folder ++ [actor] <+: file →
      file.length ≤ (folder ++ [actor]).length + disk.depth := by
    intro actor file member _
    have bounded : file.length ≤ disk.depth := by
      unfold FileSystem.depth
      have among : file.length ∈ disk.files.keys.map List.length :=
        List.mem_map.mpr ⟨file, AList.mem_keys.mp member, rfl⟩
      generalize disk.files.keys.map List.length = lengths at among
      induction lengths with
      | nil => cases among
      | cons first lengths induction =>
          rw [List.foldr_cons]
          rcases List.mem_cons.mp among with here | later
          · exact here ▸ le_max_left _ _
          · exact (induction later).trans (le_max_right _ _)
    omega
  have inside : ∀ actor, entry ∈ (collect listing disk actor disk.depth (folder ++ [actor]) []).1 ↔
      ∃ rest bytes, rest ≠ [] ∧ disk.files.lookup (folder ++ [actor] ++ rest) = some bytes ∧
        (readFile actor (join rest) bytes).1 = some entry :=
    fun actor => mem_collect disk.depth (folder ++ [actor]) [] (by simp) (deep actor)
  rw [List.mem_flatMap]
  constructor
  · rintro ⟨found, visited, among⟩
    obtain ⟨actor, kept, rfl⟩ := List.mem_map.mp visited
    obtain ⟨-, both⟩ := List.mem_filter.mp kept
    rw [Bool.and_eq_true] at both
    obtain ⟨rest, bytes, some, isHeld, reads⟩ := (inside actor).mp among
    obtain rfl : entry.actor = actor := (readFile_eq_some.mp reads).1
    exact ⟨both.2, rest, bytes, some, isHeld, reads⟩
  · rintro ⟨isActor, rest, bytes, some, isHeld, reads⟩
    obtain ⟨name, tail, rfl⟩ := List.exists_cons_of_ne_nil some
    have member : folder ++ [entry.actor] ++ name :: tail ∈ disk.files :=
      AList.lookup_isSome.mp (Option.isSome_of_eq_some isHeld)
    have isFolder : disk.isDir (folder ++ [entry.actor]) = true := isDir_iff.mpr ⟨name, tail, member⟩
    refine ⟨_, List.mem_map.mpr ⟨entry.actor, List.mem_filter.mpr ⟨?_, ?_⟩, rfl⟩,
      (inside entry.actor).mpr ⟨name :: tail, bytes, some, isHeld, reads⟩⟩
    · exact mem_order.mpr ⟨name :: tail, by simpa using member⟩
    · rw [isFolder, isActor]
      rfl

/-- The same by actor and path: a draft that reads as text, or a sidecar. -/
theorem mem_walked_iff :
    entry ∈ (((listing.order folder (disk.names folder)).filter fun actor =>
        disk.isDir (folder ++ [actor]) && (oneSegment host actor "actor".toList).isOk).map
          fun actor => collect listing disk actor disk.depth (folder ++ [actor]) []).flatMap
            Prod.fst ↔
      Admitted host entry.actor entry.path ∧
        (entry.content = none ∧
            tombstoneOf (folder ++ [entry.actor] ++ segments entry.path) ∈ disk.files ∨
          ∃ text, entry.content = some text ∧ (disk.files.lookup
            (folder ++ [entry.actor] ++ segments entry.path)).bind fromUtf8 = some text) := by
  rw [mem_walked, tombstoneOf_segments]
  constructor
  · rintro ⟨isActor, rest, bytes, some, isHeld, reads⟩
    have member : folder ++ [entry.actor] ++ rest ∈ disk.files :=
      AList.lookup_isSome.mp (Option.isSome_of_eq_some isHeld)
    have isRest : segments (join rest) = rest := segments_join some fun name inRest =>
      (disk.named _ member name (List.mem_append_right _ inRest)).2
    obtain ⟨-, within, markdown, ⟨nothing, shape⟩ | ⟨shape, text, content, isText⟩⟩ :=
      readFile_eq_some.mp reads
    · refine ⟨⟨isActor, within, markdown⟩, .inl ⟨nothing, ?_⟩⟩
      rwa [← shape, isRest]
    · refine ⟨⟨isActor, within, markdown⟩, .inr ⟨text, content, ?_⟩⟩
      rw [← shape, isRest, isHeld]
      exact isText
  · rintro ⟨admitted, ⟨nothing, member⟩ | ⟨text, content, isText⟩⟩
    · obtain ⟨bytes, isHeld⟩ := Option.isSome_iff_exists.mp (AList.lookup_isSome.mpr member)
      refine ⟨admitted.actor, _, bytes, segments_ne_nil _, isHeld, readFile_eq_some.mpr
        ⟨rfl, admitted.within, admitted.markdown, .inl ⟨nothing, join_segments _⟩⟩⟩
    · obtain ⟨bytes, isHeld, reads⟩ := Option.bind_eq_some_iff.mp isText
      exact ⟨admitted.actor, _, bytes, segments_ne_nil _, isHeld, readFile_eq_some.mpr
        ⟨rfl, admitted.within, admitted.markdown, .inr ⟨join_segments _, text, content, reads⟩⟩⟩

variable {content : Option Text}

theorem held_of_admitted (isFolder : domainDir host stateDir domain = .ok folder)
    (admitted : Admitted host actor path) :
    held host disk stateDir domain actor path = some content ↔
      (∃ text, content = some text ∧ (disk.files.lookup
          (folder ++ [actor] ++ segments path)).bind fromUtf8 = some text) ∨
        content = none ∧ tombstoneOf (folder ++ [actor] ++ segments path) ∈ disk.files ∧
          (disk.files.lookup (folder ++ [actor] ++ segments path)).bind fromUtf8 = none := by
  rw [held, entryPath_of_admitted isFolder admitted]
  dsimp only
  cases (disk.files.lookup (folder ++ [actor] ++ segments path)).bind fromUtf8 with
  | some text =>
      dsimp only
      constructor
      · intro same
        exact .inl ⟨text, (Option.some.inj same).symm, rfl⟩
      · rintro (⟨other, rfl, same⟩ | ⟨-, -, impossible⟩)
        · exact congrArg some same
        · cases impossible
  | none =>
      dsimp only
      split
      · next member =>
          constructor
          · intro same
            exact .inr ⟨(Option.some.inj same).symm, member, rfl⟩
          · rintro (⟨other, -, impossible⟩ | ⟨rfl, -, -⟩)
            · cases impossible
            · rfl
      · next missing =>
          refine iff_of_false (fun same => by cases same) ?_
          rintro (⟨other, -, impossible⟩ | ⟨-, member, -⟩)
          · cases impossible
          · exact missing member

theorem admitted_of_held (isHeld : held host disk stateDir domain actor path = some content) :
    Admitted host actor path := by
  unfold held at isHeld
  cases found : entryPath host stateDir domain actor path with
  | error error =>
      rw [found] at isHeld
      cases isHeld
  | ok file => exact (admitted_of_entryPath found).1

theorem held_eq_none_of_file (isFolder : domainDir host stateDir domain = .ok folder)
    (isFile : folder ∈ disk.files) : held host disk stateDir domain actor path = none := by
  have outside : ∀ names : Place, names ≠ [] → folder ++ names ∉ disk.files := by
    intro names some member
    have same := disk.apart folder isFile _ member (List.prefix_append _ _)
    exact some (by simpa using same)
  refine Option.eq_none_iff_forall_ne_some.mpr fun content isHeld => ?_
  rcases (held_of_admitted isFolder (admitted_of_held isHeld)).mp isHeld with
    ⟨text, -, isText⟩ | ⟨-, member, -⟩
  · obtain ⟨bytes, isThere, -⟩ := Option.bind_eq_some_iff.mp isText
    rw [List.append_assoc] at isThere
    exact outside _ (by simp) (AList.lookup_isSome.mp (Option.isSome_of_eq_some isThere))
  · rw [tombstoneOf_segments, List.append_assoc] at member
    exact outside _ (by simp) member

/-- The journal lists what each actor holds at each path, and nothing else. -/
theorem mem_entries :
    entry ∈ (journalEntries host listing disk stateDir domain).entries ↔
      held host disk stateDir domain entry.actor entry.path = some entry.content := by
  unfold journalEntries walk
  cases isFolder : domainDir host stateDir domain with
  | error error =>
      obtain ⟨refusal, refused⟩ := @entryPath_error_of_domain host stateDir domain entry.actor
        entry.path error isFolder
      rw [held, refused]
      exact iff_of_false List.not_mem_nil fun same => by cases same
  | ok folder =>
      dsimp only
      split
      · next isFile =>
          rw [held_eq_none_of_file isFolder isFile]
          exact iff_of_false List.not_mem_nil fun same => by cases same
      · change entry ∈ sortPairs _ ↔ _
        rw [mem_sortPairs ?_]
        · rw [mem_walked_iff]
          constructor
          · rintro ⟨⟨admitted, found⟩, alone⟩
            rw [held_of_admitted isFolder admitted]
            rcases found with ⟨nothing, member⟩ | draft
            · refine .inr ⟨nothing, member, Option.eq_none_iff_forall_ne_some.mpr
                fun text isText => ?_⟩
              have beside := alone nothing ⟨entry.actor, entry.path, some text⟩
                (mem_walked_iff.mpr ⟨admitted, .inr ⟨text, rfl, isText⟩⟩) rfl
              cases beside
            · exact .inl draft
          · intro isHeld
            have admitted := admitted_of_held isHeld
            rcases (held_of_admitted isFolder admitted).mp isHeld with
              ⟨text, content, isText⟩ | ⟨nothing, member, noText⟩
            · refine ⟨⟨admitted, .inr ⟨text, content, isText⟩⟩, fun nothing => ?_⟩
              rw [content] at nothing
              cases nothing
            · refine ⟨⟨admitted, .inl ⟨nothing, member⟩⟩, fun _ other otherIn same => ?_⟩
              obtain ⟨sameActor, samePath⟩ := key_eq_iff.mp same
              obtain ⟨-, ⟨otherNothing, -⟩ | ⟨text, -, isText⟩⟩ := mem_walked_iff.mp otherIn
              · exact otherNothing
              · rw [sameActor, samePath, noText] at isText
                cases isText
        · intro left leftIn right rightIn same leftSome rightSome
          obtain ⟨sameActor, samePath⟩ := key_eq_iff.mp same
          obtain ⟨-, ⟨nothing, -⟩ | ⟨text, content, isText⟩⟩ := mem_walked_iff.mp leftIn
          · rw [nothing] at leftSome
            cases leftSome
          · obtain ⟨-, ⟨nothing, -⟩ | ⟨other, otherContent, otherText⟩⟩ :=
              mem_walked_iff.mp rightIn
            · rw [nothing] at rightSome
              cases rightSome
            · rw [sameActor, samePath, otherText] at isText
              refine eq_of_key same ?_
              rw [content, otherContent, isText]

theorem pairwise_entries (host : Host) (listing : Listing) (disk : FileSystem) (stateDir : Place)
    (domain : Text) :
    (journalEntries host listing disk stateDir domain).entries.Pairwise
      fun left right => left.key < right.key := by
  unfold journalEntries walk
  cases domainDir host stateDir domain with
  | error error => exact List.Pairwise.nil
  | ok folder =>
      dsimp only
      split
      · exact List.Pairwise.nil
      · exact pairwise_sortPairs _

end

variable {host : Host} {file : Place} {bytes : Bytes} {disk last : FileSystem}

/-- Only the touched files differ, and the file meant is as before or as it is
to be. -/
structure Partway (touched : List Place) (file : Place) (after : Option Bytes)
    (disk last : FileSystem) : Prop where
  others : ∀ place, place ∉ touched → last.files.lookup place = disk.files.lookup place
  content : last.files.lookup file = disk.files.lookup file ∨ last.files.lookup file = after

/-- Only the touched files differ, and the file meant is as it is to be. -/
structure Through (touched : List Place) (file : Place) (after : Option Bytes)
    (disk last : FileSystem) : Prop where
  others : ∀ place, place ∉ touched → last.files.lookup place = disk.files.lookup place
  content : last.files.lookup file = after

theorem Through.partway {touched : List Place} {after : Option Bytes}
    (through : Through touched file after disk last) : Partway touched file after disk last :=
  ⟨through.others, .inr through.content⟩

theorem Partway.refl (touched : List Place) (file : Place) (after : Option Bytes)
    (disk : FileSystem) : Partway touched file after disk disk :=
  ⟨fun _ _ => rfl, .inl rfl⟩

/-- What a call that may be refused leaves either way. -/
def onAnswer (refused done : FileSystem → Prop) (result : Except IoError Unit)
    (last : FileSystem) : Prop :=
  match result with
  | .ok _ => done last
  | .error _ => refused last

theorem ensures_wrapped {call : OnFiles (Except IoError Unit)} {holds done : FileSystem → Prop}
    (answered : Ensures fileAnswers (Finishes holds (onAnswer holds done)) call disk)
    (safe : ∀ last, done last → holds last) :
    Ensures fileAnswers (Finishes holds fun _ last => done last) (wrapped call) disk := by
  refine answered.andThen fun result last left => ?_
  cases result with
  | ok value => exact ⟨safe last left, left⟩
  | error error => exact ⟨left, left⟩

variable {holds : FileSystem → Prop} {path other : Text}

theorem ensures_createParent (now : holds disk) :
    Ensures fileAnswers (Finishes holds fun _ last => last = disk) (createParent file) disk := by
  unfold createParent
  split
  · exact ⟨now, rfl⟩
  · refine ensures_wrapped ⟨now, fun answer last answered => ?_⟩ ?_
    · cases answer with
      | ok value =>
          obtain rfl : last = disk := answered
          exact ⟨now, rfl⟩
      | error error =>
          obtain rfl : last = disk := answered
          exact ⟨now, now⟩
    · rintro last rfl
      exact now

theorem ensures_write {place : Place} :
    Ensures fileAnswers
      (Finishes (fun last => ∀ other, other ≠ place →
          last.files.lookup other = disk.files.lookup other)
        fun _ last => last.files = disk.files.insert place bytes)
      (wrapped (Program.request (FileCall.write place bytes))) disk := by
  have aside : ∀ torn (last : FileSystem), last.files = disk.files.insert place torn → ∀ other, other ≠ place →
      last.files.lookup other = disk.files.lookup other := by
    intro torn last shape other different
    rw [shape, AList.lookup_insert_ne different]
  refine ensures_wrapped ⟨fun _ _ => rfl, fun answer last answered => ?_⟩ (aside bytes)
  cases answer with
  | ok value => exact ⟨aside bytes last answered, answered⟩
  | error error =>
      rcases answered with rfl | ⟨torn, shape⟩
      · exact ⟨fun _ _ => rfl, fun _ _ => rfl⟩
      · exact ⟨aside torn last shape, aside torn last shape⟩

theorem ensures_rename {source target : Place} (now : holds disk)
    (renamed : ∀ last bytes, disk.files.lookup source = some bytes →
      last.files = (disk.files.erase source).insert target bytes → holds last) :
    Ensures fileAnswers
      (Finishes holds fun _ last => ∃ bytes, disk.files.lookup source = some bytes ∧
        last.files = (disk.files.erase source).insert target bytes)
      (wrapped (Program.request (FileCall.rename source target))) disk := by
  refine ensures_wrapped ⟨now, fun answer last answered => ?_⟩ ?_
  · cases answer with
    | ok value =>
        obtain ⟨moved, found, shape⟩ := answered
        exact ⟨renamed last moved found shape, moved, found, shape⟩
    | error error =>
        obtain rfl : last = disk := answered
        exact ⟨now, now⟩
  · rintro last ⟨moved, found, shape⟩
    exact renamed last moved found shape

/-- A save puts its bytes down whole or leaves the file as it was. -/
theorem save_leaves (apart : tempSibling host file ≠ file) :
    Ensures fileAnswers
      (Finishes (Partway [file, tempSibling host file] file (some bytes) disk)
        fun _ last => Through [file, tempSibling host file] file (some bytes) disk last)
      (save host file bytes) disk := by
  have start := Partway.refl [file, tempSibling host file] file (some bytes) disk
  have aside : ∀ middle : FileSystem, (∀ other, other ≠ tempSibling host file →
      middle.files.lookup other = disk.files.lookup other) →
        Partway [file, tempSibling host file] file (some bytes) disk middle := by
    intro middle same
    refine ⟨fun place outside => same place fun isTemp => outside ?_, .inl (same file apart.symm)⟩
    rw [isTemp]
    exact List.mem_cons_of_mem _ List.mem_cons_self
  unfold save
  refine (ensures_createParent start).andThen fun _ here same => ?_
  rw [same]
  have written : Ensures fileAnswers
      (Finishes (Partway [file, tempSibling host file] file (some bytes) disk)
        fun _ last => last.files = disk.files.insert (tempSibling host file) bytes)
      (wrapped (Program.request (FileCall.write (tempSibling host file) bytes))) disk := by
    refine ensures_write.mono fun ending last left => ?_
    cases ending with
    | returned value => exact left
    | failed error => exact aside last left
    | cut => exact aside last left
  refine written.andThen fun _ middle shape => ?_
  -- the rename takes the temporary sibling away with it
  have through : ∀ last moved, middle.files.lookup (tempSibling host file) = some moved →
      last.files = (middle.files.erase (tempSibling host file)).insert file moved →
        Through [file, tempSibling host file] file (some bytes) disk last := by
    intro last moved found placed
    rw [shape, AList.lookup_insert] at found
    obtain rfl := Option.some.inj found
    refine ⟨fun place outside => ?_, by rw [placed, AList.lookup_insert]⟩
    rw [List.mem_cons, List.mem_singleton, not_or] at outside
    rw [placed, AList.lookup_insert_ne outside.1, AList.lookup_erase_ne outside.2, shape,
      AList.lookup_insert_ne outside.2]
  have now : Partway [file, tempSibling host file] file (some bytes) disk middle :=
    aside middle fun other different => by rw [shape, AList.lookup_insert_ne different]
  refine (ensures_rename now fun last moved found placed =>
    (through last moved found placed).partway).mono fun ending last left => ?_
  cases ending with
  | returned value =>
      obtain ⟨moved, found, placed⟩ := left
      exact through last moved found placed
  | failed error => exact left
  | cut => exact left

theorem removeIfPresent_leaves :
    Ensures fileAnswers
      (Finishes (Partway [file] file none disk) fun _ last => Through [file] file none disk last)
      (removeIfPresent file) disk := by
  have start := Partway.refl [file] file none disk
  refine ⟨start, fun answer last answered => ?_⟩
  cases answer with
  | ok value =>
      have through : Through [file] file none disk last := by
        refine ⟨fun place outside => ?_, ?_⟩
        · rw [answered.2, AList.lookup_erase_ne (by simpa using outside)]
        · rw [answered.2, AList.lookup_erase]
      exact ⟨through.partway, through⟩
  | error error =>
      obtain ⟨rfl, missing⟩ := answered
      cases error with
      | notFound =>
          have through : Through [file] file none last last :=
            ⟨fun _ _ => rfl, AList.lookup_eq_none.mpr (missing rfl)⟩
          exact ⟨through.partway, through⟩
      | invalidInput message => exact ⟨start, start⟩
      | other => exact ⟨start, start⟩

/-- A removal never takes the entry for another's: the folder lists the name that
is there. -/
theorem removeEntryIfPresent_leaves (some : file ≠ []) :
    Ensures fileAnswers
      (Finishes (Partway [file] file none disk) fun _ last => Through [file] file none disk last)
      (removeEntryIfPresent host file) disk := by
  have start := Partway.refl [file] file none disk
  refine ⟨start, fun answer middle answered => ?_⟩
  cases answer with
  | error error =>
      obtain rfl : middle = disk := answered
      exact removeIfPresent_leaves
  | ok value =>
      obtain ⟨rfl, stands⟩ := answered
      refine ⟨start, fun listed last listing => ?_⟩
      cases listed with
      | error error =>
          obtain rfl : last = middle := listing
          exact removeIfPresent_leaves
      | ok names =>
          obtain ⟨rfl, isListing⟩ := listing
          have shape : file.dropLast ++ [file.getLastD []] = file := by
            obtain ⟨front, name, rfl⟩ := List.eq_nil_or_concat file |>.resolve_left some
            simp
          have inFolder : file.getLastD [] ∈ names := by
            rw [isListing.mem_iff, mem_names]
            rcases stands with isFile | isFolder
            · exact ⟨[], by rw [shape]; exact isFile⟩
            · obtain ⟨name, rest, member⟩ := isDir_iff.mp isFolder
              refine ⟨name :: rest, ?_⟩
              rwa [← List.singleton_append, ← List.append_assoc, shape]
          change Ensures _ _ (if file.getLastD [] ∈ names then removeIfPresent file else _) last
          rw [if_pos inFolder]
          exact removeIfPresent_leaves

theorem pruneEmpty_leaves {stop : Place} (folders : List Place) (now : holds disk) :
    Ensures fileAnswers (Finishes holds fun _ last => last = disk) (pruneEmpty stop folders)
      disk := by
  induction folders with
  | nil => exact ⟨now, rfl⟩
  | cons folder folders induction =>
      unfold pruneEmpty
      split
      · exact ⟨now, rfl⟩
      · refine ⟨now, fun answer last answered => ?_⟩
        obtain rfl : last = disk := by cases answer <;> exact answered
        cases answer with
        | error error => exact ⟨now, rfl⟩
        | ok value =>
            change Ensures _ _ (if folder = stop then pure () else pruneEmpty stop folders) last
            split
            · exact ⟨now, rfl⟩
            · exact induction

/-- What a temporary sibling's name ends with. -/
def tempSuffix (host : Host) : Text := ".tmp.".toList ++ Nat.toDigits 10 host.processId

theorem slash_not_mem_tempSuffix (host : Host) : '/' ∉ tempSuffix host := by
  rw [tempSuffix, List.mem_append, not_or]
  refine ⟨by decide, fun member => ?_⟩
  have digit := Nat.isDigit_of_mem_toDigits (by decide) (by decide) member
  exact absurd digit (by decide)

theorem tempSibling_segments (host : Host) (root : Place) (path : Text) :
    tempSibling host (root ++ segments path) = root ++ segments (path ++ tempSuffix host) :=
  extendName_segments (slash_not_mem_tempSuffix host) root path

theorem getLast_tempSuffix (host : Host) (path : Text) :
    ∃ char, (path ++ tempSuffix host).getLast? = some char ∧ (char = '.' ∨ char.isDigit = true) := by
  rw [tempSuffix, ← List.append_assoc, List.getLast?_append]
  cases digits : (Nat.toDigits 10 host.processId).getLast? with
  | none =>
      refine ⟨'.', ?_, .inl rfl⟩
      rw [List.getLast?_append]
      rfl
  | some char =>
      exact ⟨char, rfl, .inr (Nat.isDigit_of_mem_toDigits (by decide) (by decide)
        (List.mem_of_getLast? digits))⟩

theorem getLast_tombstoneSuffix (path : Text) :
    (path ++ tombstoneSuffix).getLast? = some 'e' := by
  rw [List.getLast?_append]
  rfl

theorem getLast_of_isMd {path : Text} (markdown : isMd path = true) :
    ∃ char, path.getLast? = some char ∧ char.toLower = 'd' := by
  rw [isMd, endsWith_iff] at markdown
  obtain ⟨front, whole⟩ := markdown
  have last := congrArg List.getLast? whole
  have markdownEnd : ".md".toList.getLast? = some 'd' := by decide
  rw [List.getLast?_append, markdownEnd, List.getLast?_map] at last
  exact Option.map_eq_some_iff.mp last.symm

theorem tombstone_ne_temp (host : Host) (left right : Text) :
    left ++ tombstoneSuffix ≠ right ++ tempSuffix host := by
  intro same
  obtain ⟨char, last, isChar⟩ := getLast_tempSuffix host right
  rw [← same, getLast_tombstoneSuffix] at last
  obtain rfl := Option.some.inj last
  exact absurd isChar (by decide)

theorem toLower_of_isDigit {char : Char} (digit : char.isDigit = true) : char.toLower = char := by
  have below : char.val.toNat ≤ '9'.toNat := (Char.isDigit_iff_toNat.mp digit).2
  unfold Char.toLower
  rw [dif_neg]
  rintro ⟨fromA, -⟩
  have above : 'A'.toNat ≤ char.val.toNat := UInt32.le_iff_toNat_le.mp fromA
  have order : '9'.toNat < 'A'.toNat := by decide
  omega

theorem markdown_ne_temp (host : Host) (markdown : isMd path = true) :
    path ≠ other ++ tempSuffix host := by
  rintro rfl
  obtain ⟨char, last, isChar⟩ := getLast_tempSuffix host other
  obtain ⟨letter, isLast, lowered⟩ := getLast_of_isMd markdown
  rw [last] at isLast
  obtain rfl := Option.some.inj isLast
  rcases isChar with rfl | digit
  · exact absurd lowered (by decide)
  · rw [toLower_of_isDigit digit] at lowered
    rw [lowered] at digit
    exact absurd digit (by decide)

/-- The paths of the files a call for one entry may touch. -/
def ownPaths (host : Host) (path : Text) : List Text :=
  [path, path ++ tombstoneSuffix, path ++ tempSuffix host,
    path ++ tombstoneSuffix ++ tempSuffix host]

theorem markdown_mem_ownPaths (markdown : isMd other = true) (member : other ∈ ownPaths host path) :
    other = path := by
  simp only [ownPaths, List.mem_cons, List.not_mem_nil, or_false] at member
  rcases member with same | rfl | same | same
  · exact same
  · rw [not_md_of_tombstone] at markdown
    cases markdown
  · exact absurd same (markdown_ne_temp host markdown)
  · exact absurd same (markdown_ne_temp host markdown)

theorem tombstone_mem_ownPaths (markdown : isMd path = true)
    (member : other ++ tombstoneSuffix ∈ ownPaths host path) : other = path := by
  simp only [ownPaths, List.mem_cons, List.not_mem_nil, or_false] at member
  rcases member with same | same | same | same
  · rw [← same, not_md_of_tombstone] at markdown
    cases markdown
  · exact List.append_cancel_right same
  · exact absurd same (tombstone_ne_temp host _ _)
  · exact absurd same (tombstone_ne_temp host _ _)

end Crystalline.Overlay
