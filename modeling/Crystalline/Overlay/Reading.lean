import Crystalline.Overlay.Journal
import Crystalline.Text.Ends

/-!
# What the walk reads

The walk takes actor, path and kind from where a file stands.  Names cannot
hold a slash, so a place below an actor's folder is a path and nothing else, and
the walk answers with one entry for each path that has a draft or a sidecar.
-/

namespace Crystalline.Overlay

open Text

/-- The path of the names on the way to a file. -/
def join (names : List Text) : Text := ['/'].intercalate names

theorem join_segments (path : Text) : join (segments path) = path := List.intercalate_splitOn '/'

theorem segments_ne_nil (path : Text) : segments path ≠ [] := List.splitOn_ne_nil '/' path

variable {names : List Text}

theorem segments_join (some : names ≠ []) (named : ∀ name ∈ names, '/' ∉ name) :
    segments (join names) = names :=
  List.splitOn_intercalate '/' named some

theorem slash_not_mem_segments {path : Text} : ∀ name ∈ segments path, '/' ∉ name :=
  fun _ member => Ends.not_mem_of_mem_splitOn member

theorem join_concat (some : names ≠ []) (name : Text) :
    join (names ++ [name]) = join names ++ '/' :: name := by
  induction names with
  | nil => exact absurd rfl some
  | cons first names induction =>
      cases names with
      | nil => simp [join, List.intercalate, List.intersperse]
      | cons second names =>
          have tail := induction (List.cons_ne_nil _ _)
          have grow : ∀ rest : List Text, rest ≠ [] → join (first :: rest) =
              first ++ '/' :: join rest := by
            intro rest some
            rw [join, List.intercalate_cons_of_ne_nil some]
            simp [join]
          rw [List.cons_append, grow _ (by simp), tail, grow _ (by simp)]
          simp

theorem join_eq_nil_iff (named : ∀ name ∈ names, name ≠ []) : join names = [] ↔ names = [] := by
  constructor
  · intro empty
    by_contra some
    obtain ⟨front, last, rfl⟩ := List.eq_nil_or_concat names |>.resolve_left some
    have lastNamed := named last (by simp)
    cases front with
    | nil => exact lastNamed (by simpa [join, List.intercalate] using empty)
    | cons first front =>
        rw [List.concat_eq_append, join_concat (List.cons_ne_nil _ _)] at empty
        simp at empty
  · rintro rfl
    rfl

theorem relative_eq_join (named : ∀ name ∈ names, name ≠ []) (name : Text) :
    (if join names = [] then name else join names ++ '/' :: name) = join (names ++ [name]) := by
  by_cases empty : names = []
  · subst empty
    simp [join, List.intercalate]
  · rw [if_neg (mt (join_eq_nil_iff named).mp empty), join_concat empty]

theorem extendName_segments {suffix : Text} (clean : '/' ∉ suffix) (root : Place) (path : Text) :
    extendName (root ++ segments path) suffix = root ++ segments (path ++ suffix) := by
  obtain ⟨front, last, shape⟩ :=
    List.eq_nil_or_concat (segments path) |>.resolve_left (segments_ne_nil path)
  rw [List.concat_eq_append] at shape
  have extended : segments (path ++ suffix) = front ++ [last ++ suffix] := by
    have whole : path ++ suffix = join (front ++ [last ++ suffix]) := by
      rw [← join_segments path, shape]
      cases front with
      | nil => simp [join, List.intercalate]
      | cons first front =>
          rw [join_concat (List.cons_ne_nil _ _), join_concat (List.cons_ne_nil _ _)]
          simp
    rw [whole]
    refine segments_join (by simp) fun name member => ?_
    have cleanPath := @slash_not_mem_segments path
    rw [shape] at cleanPath
    rcases List.mem_append.mp member with inFront | isLast
    · exact cleanPath name (List.mem_append_left _ inFront)
    · rw [List.mem_singleton.mp isLast, List.mem_append, not_or]
      exact ⟨cleanPath last (by simp), clean⟩
  rw [extendName, shape, extended]
  simp [← List.append_assoc]

theorem place_inj {root : Place} {left right : Text} :
    root ++ segments left = root ++ segments right ↔ left = right := by
  rw [List.append_cancel_left_eq]
  constructor
  · intro same
    rw [← join_segments left, same, join_segments]
  · rintro rfl
    rfl

theorem not_md_of_tombstone (path : Text) : isMd (path ++ tombstoneSuffix) = false := by
  rw [Bool.eq_false_iff]
  intro isMarkdown
  rw [isMd, endsWith_iff, List.map_append] at isMarkdown
  obtain ⟨front, whole⟩ := isMarkdown
  have last := congrArg List.getLast? whole
  have markdownEnd : ".md".toList.getLast? = some 'd' := by decide
  have tombstoneEnd : (tombstoneSuffix.map Char.toLower).getLast? = some 'e' := by decide
  rw [List.getLast?_append, List.getLast?_append, markdownEnd, tombstoneEnd] at last
  exact absurd last (by simp)

/-- What one file is read as. -/
theorem readFile_eq_some {actor relative : Text} {bytes : Bytes} {entry : JournalEntry} :
    (readFile actor relative bytes).1 = some entry ↔
      entry.actor = actor ∧ isWithinDomain entry.path = true ∧ isMd entry.path = true ∧
        (entry.content = none ∧ relative = entry.path ++ tombstoneSuffix ∨
          relative = entry.path ∧ ∃ text, entry.content = some text ∧
            fromUtf8 bytes = some text) := by
  obtain ⟨owner, path, content⟩ := entry
  unfold readFile
  cases stripped : stripSuffix tombstoneSuffix relative with
  | some base =>
      have shape := stripSuffix_eq_some_iff.mp stripped
      subst shape
      dsimp only
      constructor
      · intro found
        split at found
        · next valid =>
            obtain ⟨rfl, rfl, rfl⟩ := JournalEntry.mk.inj (Option.some.inj found)
            rw [Bool.and_eq_true] at valid
            exact ⟨rfl, valid.1, valid.2, .inl ⟨rfl, rfl⟩⟩
        · cases found
      · rintro ⟨rfl, within, markdown, ⟨rfl, same⟩ | ⟨rfl, -⟩⟩
        · obtain rfl := List.append_cancel_right same
          rw [if_pos (by rw [within, markdown]; rfl)]
        · rw [not_md_of_tombstone] at markdown
          cases markdown
  | none =>
      have noSuffix : ∀ base, relative ≠ base ++ tombstoneSuffix := by
        rintro base rfl
        rw [stripSuffix_eq_some_iff.mpr rfl] at stripped
        cases stripped
      dsimp only
      cases isText : fromUtf8 bytes with
      | none =>
          refine iff_of_false (by simp) ?_
          rintro ⟨-, -, -, ⟨-, same⟩ | ⟨-, text, -, found⟩⟩
          · exact noSuffix path same
          · cases found
      | some text =>
          dsimp only
          constructor
          · intro found
            split at found
            · next valid =>
                obtain ⟨rfl, rfl, rfl⟩ := JournalEntry.mk.inj (Option.some.inj found)
                rw [Bool.and_eq_true] at valid
                exact ⟨rfl, valid.1, valid.2, .inr ⟨rfl, text, rfl, rfl⟩⟩
            · cases found
          · rintro ⟨rfl, within, markdown, ⟨-, same⟩ | ⟨rfl, other, rfl, found⟩⟩
            · exact absurd same (noSuffix path)
            · obtain rfl := Option.some.inj found
              rw [if_pos (by rw [within, markdown]; rfl)]

section Walk

variable {listing : Listing} {disk : FileSystem} {actor : Text} {entry : JournalEntry}

theorem mem_order {folder : Place} {name : Text} :
    name ∈ listing.order folder (disk.names folder) ↔
      ∃ rest, folder ++ name :: rest ∈ disk.files := by
  rw [(listing.perm folder _).mem_iff, mem_names]

/-- The walk of a folder reads every file below it, once it may go as deep as the
files stand. -/
theorem mem_collect (depth : Nat) (folder : Place) (names : List Text)
    (named : ∀ name ∈ names, name ≠ [])
    (deep : ∀ file ∈ disk.files, folder <+: file → file.length ≤ folder.length + depth) :
    entry ∈ (collect listing disk actor depth folder (join names)).1 ↔
      ∃ rest bytes, rest ≠ [] ∧ disk.files.lookup (folder ++ rest) = some bytes ∧
        (readFile actor (join (names ++ rest)) bytes).1 = some entry := by
  induction depth generalizing folder names with
  | zero =>
      refine iff_of_false List.not_mem_nil ?_
      rintro ⟨rest, bytes, some, held, -⟩
      have short := deep _ (AList.lookup_isSome.mp (Option.isSome_of_eq_some held))
        (List.prefix_append _ _)
      rw [List.length_append] at short
      exact some (List.length_eq_zero_iff.mp (by omega))
  | succ depth induction =>
      have below : ∀ name file, file ∈ disk.files → folder ++ [name] <+: file →
          file.length ≤ (folder ++ [name]).length + depth := by
        intro name file held above
        have short := deep file held ((List.prefix_append _ _).trans above)
        simp only [List.length_append, List.length_singleton]
        omega
      have entryNamed : ∀ name rest, folder ++ name :: rest ∈ disk.files → name ≠ [] :=
        fun name rest held => (disk.named _ held name (by simp)).1
      rw [collect]
      dsimp only
      rw [List.mem_flatMap]
      constructor
      · rintro ⟨found, visited, among⟩
        obtain ⟨name, listed, rfl⟩ := List.mem_map.mp visited
        obtain ⟨tail, held⟩ := mem_order.mp listed
        rw [relative_eq_join named] at among
        have namedHere : ∀ other ∈ names ++ [name], other ≠ [] := by
          intro other member
          rcases List.mem_append.mp member with early | here
          · exact named other early
          · rw [List.mem_singleton.mp here]
            exact entryNamed name tail held
        split at among
        · obtain ⟨rest, bytes, -, isHeld, reads⟩ :=
            (induction (folder ++ [name]) (names ++ [name]) namedHere (below name)).mp among
          rw [List.append_assoc] at isHeld reads
          exact ⟨name :: rest, bytes, List.cons_ne_nil _ _, isHeld, reads⟩
        · cases isHeld : disk.files.lookup (folder ++ [name]) with
          | none =>
              rw [isHeld] at among
              cases among
          | some bytes =>
              rw [isHeld] at among
              exact ⟨[name], bytes, List.cons_ne_nil _ _, isHeld, by simpa using among⟩
      · rintro ⟨rest, bytes, some, held, reads⟩
        obtain ⟨name, tail, rfl⟩ := List.exists_cons_of_ne_nil some
        have member : folder ++ name :: tail ∈ disk.files :=
          AList.lookup_isSome.mp (Option.isSome_of_eq_some held)
        have namedHere : ∀ other ∈ names ++ [name], other ≠ [] := by
          intro other isIn
          rcases List.mem_append.mp isIn with early | here
          · exact named other early
          · rw [List.mem_singleton.mp here]
            exact entryNamed name tail member
        refine ⟨_, List.mem_map.mpr ⟨name, mem_order.mpr ⟨tail, member⟩, rfl⟩, ?_⟩
        rw [relative_eq_join named]
        cases tail with
        | nil =>
            rw [isDir_of_file member, if_neg Bool.false_ne_true, held]
            simpa using reads
        | cons next tail =>
            have isFolder : disk.isDir (folder ++ [name]) = true :=
              isDir_iff.mpr ⟨next, tail, by simpa using member⟩
            rw [isFolder, if_pos rfl]
            refine (induction (folder ++ [name]) (names ++ [name]) namedHere (below name)).mpr
              ⟨next :: tail, bytes, List.cons_ne_nil _ _, ?_, ?_⟩
            · rw [List.append_assoc]
              exact held
            · rw [List.append_assoc]
              exact reads

end Walk

section Merging

variable {kept entry : JournalEntry} {entries rest : List JournalEntry}

/-- The entry a merge keeps of those with its key: the first content among
them. -/
structure Merged (entries : List JournalEntry) (entry : JournalEntry) : Prop where
  present : ∃ other ∈ entries, other.key = entry.key
  content : entry.content =
    (entries.filter fun other => other.key = entry.key).findSome? JournalEntry.content

variable {left right : JournalEntry}

theorem key_eq_iff : left.key = right.key ↔ left.actor = right.actor ∧ left.path = right.path := by
  unfold JournalEntry.key
  rw [toLex_inj, Prod.mk.injEq]

theorem eq_of_key (same : left.key = right.key) (content : left.content = right.content) :
    left = right := by
  obtain ⟨actor, path, held⟩ := left
  obtain ⟨otherActor, otherPath, otherHeld⟩ := right
  obtain ⟨sameActor, samePath⟩ := key_eq_iff.mp same
  obtain rfl : actor = otherActor := sameActor
  obtain rfl : path = otherPath := samePath
  obtain rfl : held = otherHeld := content
  rfl

theorem merged_cons_iff (first : ∀ other ∈ rest, kept.key ≠ other.key) :
    Merged (kept :: rest) entry ↔ entry = kept ∨ Merged rest entry := by
  have aside : ∀ other ∈ rest, ¬ (decide (other.key = kept.key) = true) := fun other member same =>
    first other member (of_decide_eq_true same).symm
  have alone : ((kept :: rest).filter fun other => other.key = kept.key).findSome?
      JournalEntry.content = kept.content := by
    rw [List.filter_cons_of_pos (by simp), List.filter_eq_nil_iff.mpr aside, List.findSome?_cons]
    cases kept.content <;> rfl
  constructor
  · rintro ⟨⟨other, member, isKey⟩, content⟩
    by_cases here : entry.key = kept.key
    · rw [here, alone] at content
      exact .inl (eq_of_key here content)
    · rw [List.filter_cons_of_neg (by simpa using Ne.symm here)] at content
      rcases List.mem_cons.mp member with rfl | tail
      · exact absurd isKey.symm here
      · exact .inr ⟨⟨other, tail, isKey⟩, content⟩
  · rintro (rfl | ⟨⟨other, member, isKey⟩, content⟩)
    · exact ⟨⟨entry, List.mem_cons_self, rfl⟩, alone.symm⟩
    · refine ⟨⟨other, List.mem_cons_of_mem _ member, isKey⟩, content.trans ?_⟩
      have elsewhere : kept.key ≠ entry.key := fun same => first other member (same.trans isKey.symm)
      rw [List.filter_cons_of_neg (by simpa using elsewhere)]

section

variable (ordered : (kept :: rest).Pairwise fun left right => left.key ≤ right.key)
include ordered

theorem mem_mergeInto : entry ∈ mergeInto kept rest ↔ Merged (kept :: rest) entry := by
  induction rest generalizing kept with
  | nil =>
      rw [mergeInto, List.mem_singleton]
      constructor
      · rintro rfl
        exact ⟨⟨entry, List.mem_cons_self, rfl⟩, by simp⟩
      · rintro ⟨⟨other, member, same⟩, content⟩
        obtain rfl := List.mem_singleton.mp member
        rw [List.filter_cons_of_pos (by simpa using same), List.filter_nil,
          List.findSome?_cons] at content
        refine eq_of_key same.symm (content.trans ?_)
        cases other.content <;> rfl
  | cons next rest induction =>
      rw [List.pairwise_cons] at ordered
      obtain ⟨first, later⟩ := ordered
      rw [mergeInto]
      split
      · next same =>
          have sameKey : kept.key = next.key := key_eq_iff.mpr same
          have orderedHere : ({ kept with content := kept.content.or next.content } ::
              rest).Pairwise fun left right => left.key ≤ right.key :=
            List.pairwise_cons.mpr ⟨fun other member => first other (List.mem_cons_of_mem _ member),
              (List.pairwise_cons.mp later).2⟩
          rw [induction orderedHere]
          have sameHere : ({ kept with content := kept.content.or next.content } :
              JournalEntry).key = kept.key := rfl
          have found : (({ kept with content := kept.content.or next.content } :: rest).filter
              fun other => other.key = entry.key).findSome? JournalEntry.content =
                ((kept :: next :: rest).filter
                  fun other => other.key = entry.key).findSome? JournalEntry.content := by
            by_cases here : kept.key = entry.key
            · rw [List.filter_cons_of_pos (by simpa [sameHere] using here),
                List.filter_cons_of_pos (by simpa using here),
                List.filter_cons_of_pos (by simpa [← sameKey] using here), List.findSome?_cons,
                List.findSome?_cons, List.findSome?_cons]
              cases kept.content with
              | some text => rfl
              | none => cases next.content <;> rfl
            · rw [List.filter_cons_of_neg (by simpa [sameHere] using here),
                List.filter_cons_of_neg (by simpa using here),
                List.filter_cons_of_neg (by simpa [← sameKey] using here)]
          constructor
          · rintro ⟨⟨other, member, isKey⟩, content⟩
            refine ⟨?_, content.trans found⟩
            rcases List.mem_cons.mp member with rfl | tail
            · exact ⟨kept, List.mem_cons_self, isKey⟩
            · exact ⟨other, List.mem_cons_of_mem _ (List.mem_cons_of_mem _ tail), isKey⟩
          · rintro ⟨⟨other, member, isKey⟩, content⟩
            refine ⟨?_, content.trans found.symm⟩
            rcases List.mem_cons.mp member with rfl | tail
            · exact ⟨_, List.mem_cons_self, isKey⟩
            · rcases List.mem_cons.mp tail with rfl | tail
              · exact ⟨_, List.mem_cons_self, sameKey.trans isKey⟩
              · exact ⟨other, List.mem_cons_of_mem _ tail, isKey⟩
      · next apart =>
          have notNext : kept.key ≠ next.key := mt key_eq_iff.mp apart
          have below : kept.key < next.key :=
            lt_of_le_of_ne (first next List.mem_cons_self) notNext
          have aside : ∀ other ∈ next :: rest, kept.key ≠ other.key := by
            intro other member
            rcases List.mem_cons.mp member with rfl | tail
            · exact notNext
            · exact ne_of_lt (below.trans_le ((List.pairwise_cons.mp later).1 other tail))
          rw [List.mem_cons, induction later, merged_cons_iff aside]

theorem pairwise_mergeInto :
    (mergeInto kept rest).Pairwise fun left right => left.key < right.key := by
  induction rest generalizing kept with
  | nil => exact List.pairwise_singleton _ _
  | cons next rest induction =>
      rw [List.pairwise_cons] at ordered
      obtain ⟨first, later⟩ := ordered
      rw [mergeInto]
      split
      · exact induction (List.pairwise_cons.mpr
          ⟨fun other member => first other (List.mem_cons_of_mem _ member),
            (List.pairwise_cons.mp later).2⟩)
      · next apart =>
          refine List.pairwise_cons.mpr ⟨fun other member => ?_, induction later⟩
          obtain ⟨source, isIn, same⟩ := ((mem_mergeInto later).mp member).present
          have below : kept.key < next.key :=
            lt_of_le_of_ne (first next List.mem_cons_self) (mt key_eq_iff.mp apart)
          rw [← same]
          rcases List.mem_cons.mp isIn with rfl | tail
          · exact below
          · exact below.trans_le ((List.pairwise_cons.mp later).1 source tail)

end

/-- The entries sorted by key and merged. -/
def sortPairs (entries : List JournalEntry) : List JournalEntry :=
  mergePairs (entries.insertionSort fun left right => left.key ≤ right.key)

theorem ordered_insertionSort (entries : List JournalEntry) :
    (entries.insertionSort fun left right => left.key ≤ right.key).Pairwise
      fun left right => left.key ≤ right.key := by
  have total : Std.Total fun left right : JournalEntry => left.key ≤ right.key :=
    ⟨fun left right => le_total _ _⟩
  have transitive : IsTrans JournalEntry fun left right => left.key ≤ right.key :=
    ⟨fun _ _ _ => le_trans⟩
  exact List.pairwise_insertionSort _ entries

theorem pairwise_sortPairs (entries : List JournalEntry) :
    (sortPairs entries).Pairwise fun left right => left.key < right.key := by
  have ordered := ordered_insertionSort entries
  unfold sortPairs mergePairs
  cases sorted : entries.insertionSort fun left right => left.key ≤ right.key with
  | nil => exact List.Pairwise.nil
  | cons first rest =>
      rw [sorted] at ordered
      exact pairwise_mergeInto ordered

/-- Where each key has one content at most, merging takes it, and nothing only
where there is none. -/
theorem mem_sortPairs
    (single : ∀ left ∈ entries, ∀ right ∈ entries, left.key = right.key →
      left.content.isSome → right.content.isSome → left = right) :
    entry ∈ sortPairs entries ↔ entry ∈ entries ∧
      (entry.content = none → ∀ other ∈ entries, other.key = entry.key → other.content = none) := by
  have ordered := ordered_insertionSort entries
  have same : ∀ other, other ∈ entries.insertionSort (fun left right => left.key ≤ right.key) ↔
      other ∈ entries := fun other => List.mem_insertionSort _
  have merged : entry ∈ sortPairs entries ↔
      Merged (entries.insertionSort fun left right => left.key ≤ right.key) entry := by
    unfold sortPairs mergePairs
    cases sorted : entries.insertionSort fun left right => left.key ≤ right.key with
    | nil => exact iff_of_false List.not_mem_nil fun ⟨⟨other, member, _⟩, _⟩ => by cases member
    | cons first rest =>
        rw [sorted] at ordered
        exact mem_mergeInto ordered
  rw [merged]
  constructor
  · rintro ⟨⟨other, member, isKey⟩, content⟩
    cases found : entry.content with
    | some text =>
        rw [found] at content
        obtain ⟨source, isIn, holds⟩ := List.exists_of_findSome?_eq_some content.symm
        obtain ⟨sourceIn, sourceKey⟩ := List.mem_filter.mp isIn
        have isEntry : source = entry :=
          eq_of_key (of_decide_eq_true sourceKey) (holds.trans found.symm)
        exact ⟨(same entry).mp (isEntry ▸ sourceIn), fun nothing => by cases nothing⟩
    | none =>
        rw [found] at content
        have nothing := List.findSome?_eq_none_iff.mp content.symm
        have every : ∀ source ∈ entries, source.key = entry.key → source.content = none :=
          fun source isIn sourceKey => nothing source
            (List.mem_filter.mpr ⟨(same source).mpr isIn, decide_eq_true sourceKey⟩)
        have isEntry : other = entry :=
          eq_of_key isKey ((every other ((same other).mp member) isKey).trans found.symm)
        exact ⟨isEntry ▸ (same other).mp member, fun _ => every⟩
  · rintro ⟨member, nothing⟩
    refine ⟨⟨entry, (same entry).mpr member, rfl⟩, ?_⟩
    cases found : (List.filter (fun other => decide (other.key = entry.key))
        (entries.insertionSort fun left right => left.key ≤ right.key)).findSome?
          JournalEntry.content with
    | some text =>
        obtain ⟨source, isIn, holds⟩ := List.exists_of_findSome?_eq_some found
        obtain ⟨sourceIn, sourceKey⟩ := List.mem_filter.mp isIn
        have sourceMember := (same source).mp sourceIn
        cases isContent : entry.content with
        | none =>
            have none := nothing isContent source sourceMember (of_decide_eq_true sourceKey)
            rw [holds] at none
            cases none
        | some other =>
            have isEntry := single source sourceMember entry member (of_decide_eq_true sourceKey)
              (by rw [holds]; rfl) (by rw [isContent]; rfl)
            rw [← isContent, ← isEntry, holds]
    | none =>
        exact List.findSome?_eq_none_iff.mp found entry
          (List.mem_filter.mpr ⟨(same entry).mpr member, decide_eq_true rfl⟩)

end Merging

end Crystalline.Overlay
