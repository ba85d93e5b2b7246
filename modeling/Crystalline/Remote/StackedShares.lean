import Crystalline.Remote.Branches
import Crystalline.Remote.Partition

/-!
# Stacked shares partition the local work

A share on the chain detects its changes against the tip the open layers make
and becomes the layer on top of them.  What the layer carries and what is still
unshared over it are the changes that were detected, each on one side.
-/

namespace Crystalline.Remote

open Programs Text

section Records

/-- The record a share makes of a change, with the size of the content it read. -/
inductive RecordOf (tree : Tree) (local_ : LocalChanges) : LocalChange → ProposedFile → Prop where
  | added {path sha256 content} {blobSha : Option Sha}
      (read : tree.lookup (local_.diskPath path) = some content) :
      RecordOf tree local_ (.added path sha256)
        ⟨path, .added, some sha256, blobSha, some content.length⟩
  | modified {path sha256 content} {blobSha : Option Sha}
      (read : tree.lookup (local_.diskPath path) = some content) :
      RecordOf tree local_ (.modified path sha256)
        ⟨path, .modified, some sha256, blobSha, some content.length⟩
  | deleted {path} : RecordOf tree local_ (.deleted path) ⟨path, .deleted, none, none, none⟩

theorem lookup_of_readWorkingFile {tree : Tree} {rel : Path} {content : Bytes}
    (read : readWorkingFile tree rel = .ok content) : tree.lookup rel = some content := by
  unfold readWorkingFile at read
  cases held : readOptionalFile tree rel with
  | error error =>
      rw [held] at read
      cases read
  | ok found =>
      rw [held] at read
      cases found with
      | none => cases read
      | some bytes =>
          obtain rfl := Except.ok.inj read
          exact lookup_of_readOptionalFile held

section Collected

variable (share : Share) (carried : LocalChanges)

theorem returns_collectContent (change : ProposedChange) (path : Path) (sha256 : Sha) :
    Returns (fun collected => ∃ content blobSha,
        share.tree.lookup (carried.diskPath path) = some content ∧
          collected.2 = ⟨path, change, some sha256, some blobSha, some content.length⟩)
      (share.collectContent change path sha256 carried) := by
  unfold Share.collectContent
  cases read : readWorkingFile share.tree (carried.diskPath path) with
  | error error => trivial
  | ok content =>
      intro answer
      cases answer with
      | error error => trivial
      | ok blobSha => exact ⟨content, blobSha, lookup_of_readWorkingFile read, rfl⟩

/-- A turn of `collect_changes` adds the record of its change. -/
theorem returns_collectChange (out : CollectedChanges) (change : LocalChange) :
    Returns (fun next => ∃ file, RecordOf share.tree carried change file ∧
        next.files = out.files ++ [file])
      (share.collectChange carried out change) := by
  cases change with
  | added path sha256 =>
      refine (returns_collectContent share carried .added path sha256).bind ?_
      rintro ⟨write, file⟩ ⟨content, blobSha, read, rfl⟩
      exact ⟨_, .added read, rfl⟩
  | modified path sha256 =>
      refine (returns_collectContent share carried .modified path sha256).bind ?_
      rintro ⟨write, file⟩ ⟨content, blobSha, read, rfl⟩
      exact ⟨_, .modified read, rfl⟩
  | deleted path =>
      unfold Share.collectChange
      dsimp only
      split
      · refine (returns_anything _).bind fun held _ => ?_
        exact ⟨_, .deleted, rfl⟩
      · exact ⟨_, .deleted, rfl⟩

/-- What a share carries are the records of its changes. -/
theorem returns_collectChanges :
    Returns (fun collected => List.Forall₂ (RecordOf share.tree carried) carried.changes
      collected.files) (share.collectChanges carried) := by
  have collects : ∀ (changes : List LocalChange) (out : CollectedChanges),
      Returns (fun collected => ∃ files, collected.files = out.files ++ files ∧
          List.Forall₂ (RecordOf share.tree carried) changes files)
        (Program.forEach (share.collectChange carried) out changes) := by
    intro changes
    induction changes with
    | nil => exact fun out => ⟨[], (List.append_nil _).symm, .nil⟩
    | cons change changes induction =>
        intro out
        refine (returns_collectChange share carried out change).bind ?_
        rintro next ⟨file, isRecord, isNext⟩
        refine (induction next).mono ?_
        rintro collected ⟨files, isLast, recorded⟩
        exact ⟨file :: files, by rw [isLast, isNext, List.append_assoc]; rfl,
          .cons isRecord recorded⟩
  refine (collects carried.changes .empty).mono ?_
  rintro collected ⟨files, isLast, recorded⟩
  rw [isLast]
  exact recorded

end Collected

end Records

section Overlay

variable {tree : Tree} {local_ : LocalChanges}

/-- What a record makes of its path in the tip. -/
def ProposedFile.stamps (file : ProposedFile) : Path × Option BaseStamp :=
  (file.path, file.sha256.bind fun sha256 => file.size.map (BaseStamp.mk sha256))

theorem lookup_insert_update (tip : Snapshot) (key : Path) (stamp : BaseStamp) :
    (fun path => (tip.insert key stamp).lookup path) =
      Function.update (fun path => tip.lookup path) key (some stamp) := by
  funext path
  by_cases same : path = key
  · subst same
    rw [AList.lookup_insert, Function.update_self]
  · rw [AList.lookup_insert_ne same, Function.update_of_ne same]

theorem lookup_erase_update (tip : Snapshot) (key : Path) :
    (fun path => (tip.erase key).lookup path) =
      Function.update (fun path => tip.lookup path) key none := by
  funext path
  by_cases same : path = key
  · subst same
    rw [AList.lookup_erase, Function.update_self]
  · rw [AList.lookup_erase_ne same, Function.update_of_ne same]

theorem lookup_overlay {change : LocalChange} {file : ProposedFile}
    (isRecord : RecordOf tree local_ change file) (base tip : Snapshot) :
    (fun path => (overlay base tip file).lookup path) =
      Function.update (fun path => tip.lookup path) file.stamps.1 file.stamps.2 := by
  cases isRecord with
  | @added here sha256 content blobSha _ =>
      exact lookup_insert_update tip here ⟨sha256, content.length⟩
  | @modified here sha256 content blobSha _ =>
      exact lookup_insert_update tip here ⟨sha256, content.length⟩
  | @deleted here => exact lookup_erase_update tip here

variable {changes : List LocalChange} {files : List ProposedFile}

section

variable (recorded : List.Forall₂ (RecordOf tree local_) changes files)
include recorded

theorem lookup_records (base tip : Snapshot) (path : Path) :
    (files.foldl (overlay base) tip).lookup path =
      Keyed.applied (files.map ProposedFile.stamps) (fun path => tip.lookup path) path := by
  induction recorded generalizing tip with
  | nil => rfl
  | cons isRecord _ induction =>
      rw [List.foldl_cons, induction, List.map_cons, Keyed.applied_cons, lookup_overlay isRecord]

theorem stamps_paths :
    (files.map ProposedFile.stamps).map Prod.fst = changes.map LocalChange.path := by
  induction recorded with
  | nil => rfl
  | cons isRecord _ induction =>
      rw [List.map_cons, List.map_cons, List.map_cons, induction]
      cases isRecord <;> rfl

theorem record_of_mem {change : LocalChange} (member : change ∈ changes) :
    ∃ file ∈ files, RecordOf tree local_ change file := by
  induction recorded with
  | nil => cases member
  | cons isRecord _ induction =>
      rcases List.mem_cons.mp member with rfl | later
      · exact ⟨_, List.mem_cons_self, isRecord⟩
      · obtain ⟨file, fileMember, isFile⟩ := induction later
        exact ⟨file, List.mem_cons_of_mem _ fileMember, isFile⟩

end

end Overlay

section Selection

theorem selected_changes {local_ carried : LocalChanges} {files : Option (List Text)}
    (selected : selectShareFiles local_ files = .ok carried) :
    carried.diskPaths = local_.diskPaths ∧
      ∃ keep : LocalChange → Bool, carried.changes = local_.changes.filter keep := by
  cases files with
  | none =>
      obtain rfl := Except.ok.inj selected
      exact ⟨rfl, fun _ => true, (List.filter_true _).symm⟩
  | some files =>
      unfold selectShareFiles at selected
      dsimp only at selected
      split at selected
      · cases selected
      · obtain rfl := Except.ok.inj selected
        exact ⟨rfl, _, rfl⟩

variable {state : OriginState}

theorem lookup_trustedDigests {base : Snapshot} {path : Path} {digest : Sha} :
    (trustedDigests state base).lookup path = some digest ↔
      state.lfDigests.lookup path = some digest ∧
        (base.lookup path).isSome = true ∧ base.lookup path = state.files.lookup path := by
  have distinct : (state.lfDigests.entries.filter fun entry =>
      (base.lookup entry.1).isSome &&
        base.lookup entry.1 = state.files.lookup entry.1).NodupKeys :=
    state.lfDigests.nodupKeys.sublist List.filter_sublist
  rw [trustedDigests, AList.lookup_to_alist, ← Option.mem_def, List.mem_dlookup_iff distinct,
    List.mem_filter, Bool.and_eq_true, decide_eq_true_iff]
  exact and_congr_left' AList.mem_lookup_iff.symm

theorem trustedDigests_congr {base next : Snapshot} {path : Path}
    (same : next.lookup path = base.lookup path) :
    (trustedDigests state next).lookup path = (trustedDigests state base).lookup path := by
  refine Option.ext fun digest => ?_
  rw [lookup_trustedDigests, lookup_trustedDigests, same]

end Selection

namespace Detector

variable {detector : Detector} {tree : Tree}

/-- The tip a share's layer makes carries the changes of the share. -/
theorem carries_of_records {base tip : Snapshot} {result carried : LocalChanges}
    {files : List ProposedFile} (succeeded : detector.detectLocalChangesWith tree tip = .ok result)
    (spelled : carried.diskPaths = result.diskPaths)
    (detected : ∃ keep : LocalChange → Bool, carried.changes = result.changes.filter keep)
    (recorded : List.Forall₂ (RecordOf tree carried) carried.changes files) :
    detector.Carries tree tip (files.foldl (overlay base) tip) result carried.changes := by
  obtain ⟨keep, isKept⟩ := detected
  have inside : ∀ change ∈ carried.changes, change ∈ result.changes := by
    intro change member
    rw [isKept] at member
    exact List.mem_of_mem_filter member
  have once : (carried.changes.map LocalChange.path).Nodup := by
    rw [isKept]
    exact (nodup_changes succeeded).sublist (List.filter_sublist.map _)
  have onDisk : ∀ key, carried.diskPath key = result.diskPath key := by
    intro key
    rw [LocalChanges.diskPath, spelled]
    rfl
  have stamped : ∀ change ∈ carried.changes, ∃ file, RecordOf tree carried change file ∧
      (files.foldl (overlay base) tip).lookup change.path = file.stamps.2 := by
    intro change member
    obtain ⟨file, fileMember, isRecord⟩ := record_of_mem recorded member
    refine ⟨file, isRecord, ?_⟩
    have atPath : change.path = file.stamps.1 := by cases isRecord <;> rfl
    rw [lookup_records recorded, atPath]
    have inRecords : (file.stamps.1, file.stamps.2) ∈ files.map ProposedFile.stamps :=
      List.mem_map_of_mem fileMember
    refine Keyed.applied_of_mem ?_ inRecords _
    rw [stamps_paths recorded]
    exact once
  refine ⟨inside, ?_, ?_⟩
  · intro change member
    obtain ⟨file, isRecord, isStamp⟩ := stamped change member
    have reports := (mem_changes succeeded).mp (inside change member)
    cases reports with
    | @modified path bytes stamp there small listed changed =>
        cases isRecord with
        | @modified _ _ content _ read =>
            rw [onDisk, diskPath_of_unadopted succeeded
              (fun file held stamp adopts => adopts.absent bytes there)] at read
            obtain rfl := Option.some.inj (read.symm.trans there.1)
            exact .modified there listed isStamp
    | @recased path bytes key stamp adopts small changed =>
        cases isRecord with
        | @modified _ _ content _ read =>
            rw [onDisk, diskPath_of_adopts succeeded adopts] at read
            obtain rfl := Option.some.inj (read.symm.trans adopts.unmatched.onDisk.1)
            exact .recased adopts isStamp
    | @added path bytes there small unlisted fresh =>
        cases isRecord with
        | @added _ _ content _ read =>
            rw [onDisk, diskPath_of_unadopted succeeded
              (fun file held stamp adopts => unlisted stamp adopts.listed)] at read
            obtain rfl := Option.some.inj (read.symm.trans there.1)
            exact .added there unlisted fresh isStamp
    | @deleted path stamp listed absent unadopted noTwin =>
        cases isRecord with
        | deleted => exact .deleted (inside _ member) isStamp
  · intro path unnamed
    rw [lookup_records recorded]
    refine Keyed.applied_of_not_named ?_ _
    rw [stamps_paths recorded, List.mem_map]
    rintro ⟨change, member, same⟩
    exact unnamed change member same

/-- A file that counts as its entry by its text alone. -/
def TextTwin (detector : Detector) (tree : Tree) (tip : Snapshot) (path : Path) : Prop :=
  ∃ bytes stamp, detector.OnDisk tree path bytes ∧ detector.Listed tip path stamp ∧
    stamp ≠ detector.stampOfContent bytes ∧
      ((detector.lfDigests.bind fun digests => digests.lookup path) =
          some (detector.sha256Hex bytes) ∨
        detector.sameTextAsBase path stamp bytes = true)

/-- No two paths that take part, on disk or in the tip, fold alike. -/
def FoldsApart (detector : Detector) (tree : Tree) (tip : Snapshot) : Prop :=
  ∀ first second,
    ((∃ bytes, detector.OnDisk tree first bytes) ∨ ∃ stamp, detector.Listed tip first stamp) →
    ((∃ bytes, detector.OnDisk tree second bytes) ∨ ∃ stamp, detector.Listed tip second stamp) →
      detector.foldCase first = detector.foldCase second → first = second

theorem stamp_of_unchanged {tip : Snapshot} {path : Path} {bytes : Bytes} {stamp : BaseStamp}
    (plain : ¬detector.TextTwin tree tip path) (onDisk : detector.OnDisk tree path bytes)
    (listed : detector.Listed tip path stamp) (same : detector.unchanged path stamp bytes = true) :
    stamp = detector.stampOfContent bytes := by
  by_contra other
  refine plain ⟨bytes, stamp, onDisk, listed, other, ?_⟩
  rw [unchanged, sameAsBase, Bool.or_eq_true, Bool.or_eq_true, Bool.and_eq_true,
    Bool.and_eq_true, decide_eq_true_iff, decide_eq_true_iff, decide_eq_true_iff] at same
  rcases same with (⟨size, sha256⟩ | digest) | ⟨-, text⟩
  · obtain ⟨held, length⟩ := stamp
    obtain rfl : held = detector.sha256Hex bytes := sha256
    obtain rfl : length = bytes.length := size
    exact absurd rfl other
  · exact .inl digest
  · exact .inr text

/-- Once every detected change is carried, the tip is the disk. -/
theorem Carries.stamps_disk {tip next : Snapshot} {result : LocalChanges}
    (succeeded : detector.detectLocalChangesWith tree tip = .ok result)
    (carries : detector.Carries tree tip next result result.changes)
    (apart : detector.FoldsApart tree tip)
    (small : ∀ path bytes, detector.OnDisk tree path bytes → Small bytes)
    (plain : ∀ path, ¬detector.TextTwin tree tip path) {path : Path}
    (takes : detector.policy.takesPart path = true) :
    next.lookup path = (tree.lookup path).map detector.stampOfContent := by
  cases carries.fate path with
  | modified there _ stamped =>
      exact stamped.trans (congrArg (Option.map detector.stampOfContent) there.1).symm
  | recased adopts stamped =>
      have sameFile := apart _ _ (.inl ⟨_, adopts.unmatched.onDisk⟩) (.inr ⟨_, adopts.listed⟩)
        adopts.unmatched.folds
      subst sameFile
      exact absurd adopts.unmatched.onDisk (adopts.absent _)
  | added there _ _ stamped =>
      exact stamped.trans (congrArg (Option.map detector.stampOfContent) there.1).symm
  | deleted reported erased =>
      have gone := (gone_of_deleted succeeded reported).2.1
      exact erased.trans (congrArg (Option.map detector.stampOfContent) gone).symm
  | kept unnamed same =>
      have silent : ∀ change, detector.Reports tree tip change → change.path ≠ path :=
        fun change reports => unnamed change ((mem_changes succeeded).mpr reports)
      rw [same]
      cases there : tree.lookup path with
      | some bytes =>
          have onDisk : detector.OnDisk tree path bytes := ⟨there, takes⟩
          rw [Option.map_some]
          cases held : tip.lookup path with
          | some stamp =>
              have listed : detector.Listed tip path stamp := ⟨held, takes⟩
              cases changed : detector.unchanged path stamp bytes with
              | true => rw [stamp_of_unchanged (plain path) onDisk listed changed]
              | false =>
                  exact absurd rfl (silent _ (.modified onDisk (small _ _ onDisk) listed changed))
          | none =>
              have unlisted : ∀ stamp, ¬detector.Listed tip path stamp :=
                fun stamp listed => absurd (held.symm.trans listed.1) (Option.some_ne_none _).symm
              refine absurd rfl (silent _ (.added onDisk (small _ _ onDisk) unlisted ?_))
              intro key stamp adopts
              have sameKey := apart _ _ (.inl ⟨_, onDisk⟩) (.inr ⟨_, adopts.listed⟩)
                adopts.unmatched.folds
              exact unlisted stamp (sameKey ▸ adopts.listed)
      | none =>
          rw [Option.map_none]
          have absent : ∀ bytes, ¬detector.OnDisk tree path bytes :=
            fun bytes onDisk => absurd (there.symm.trans onDisk.1) (Option.some_ne_none _).symm
          cases held : tip.lookup path with
          | none => rfl
          | some stamp =>
              have listed : detector.Listed tip path stamp := ⟨held, takes⟩
              refine absurd rfl (silent (.deleted path) (.deleted listed absent ?_ ?_))
              · intro file bytes adopts
                have sameFile := apart _ _ (.inl ⟨_, adopts.unmatched.onDisk⟩) (.inr ⟨_, listed⟩)
                  adopts.unmatched.folds
                exact absent bytes (sameFile ▸ adopts.unmatched.onDisk)
              · intro other otherStamp otherListed alike bytes onDisk
                have sameOther := apart _ _ (.inl ⟨_, onDisk⟩) (.inr ⟨_, listed⟩) alike
                exact absent bytes (sameOther ▸ onDisk)

end Detector

section Stacking

/-- The recorded state over the calls of a run: a save that fails may have
replaced it or not. -/
def recordedState : Answers OriginState Call Call.Answer
  | state, .save saved, answer, last =>
      last = saved ∨ (∃ error, answer = .error error) ∧ last = state
  | state, _, _, last => last = state

/-- A call that saves no state. -/
def Aside : Call → Prop
  | .save _ => False
  | _ => True

theorem Aside.of_quiet (call : Call) (quiet : call.isQuiet) : Aside call := by
  cases call with
  | save saved => exact quiet.elim
  | _ => trivial

theorem recordedState_aside {call : Call} (aside : Aside call) {state last : OriginState}
    {answer : call.Answer} (answered : recordedState state call answer last) : last = state := by
  cases call with
  | save saved => exact aside.elim
  | _ => exact answered

variable {Middle Value : Type} {state : OriginState}

/-- The rule for the part of a share that saves no state. -/
theorem ensures_aside {program : Operation Middle} {next : Middle → Operation Value}
    {post : Middle → Prop} {holds : OriginState → Prop} {done : Value → OriginState → Prop}
    (calls : Calls Aside program) (returns : Returns post program) (now : holds state)
    (goes : ∀ value, post value →
      Ensures recordedState (Programs.Finishes holds done) (next value) state) :
    Ensures recordedState (Programs.Finishes holds done) (program >>= next) state := by
  have kept : Ensures recordedState (Programs.Finishes (· = state) fun value last => last = state ∧
      post value) program state := by
    refine ensures_iff_runs.mpr fun ending last run => ?_
    have stays : Ensures recordedState (fun _ last => last = state) program state :=
      calls.keeps (fun world request answer last aside answered isState =>
        (recordedState_aside aside answered).trans isState) rfl
    have same := stays.of_run run
    cases ending with
    | returned value => exact ⟨same, returns.of_run run⟩
    | failed error => exact same
    | cut => exact same
  refine kept.bind ?_ ?_ ?_
  · rintro value last ⟨rfl, holdsValue⟩
    exact goes value holdsValue
  · rintro error last rfl
    exact now
  · rintro last rfl
    exact now

/-- The rule for a save with nothing behind it. -/
theorem ensures_save {saved : OriginState} {holds : OriginState → Prop} {value : Value}
    (now : holds saved) :
    Ensures recordedState (Programs.Finishes (fun last => last = state ∨ holds last) fun _ => holds)
      (perform (.save saved) >>= fun _ => pure value) state := by
  refine ensures_perform (.inl rfl) ?_ ?_
  · rintro error last (rfl | ⟨-, rfl⟩)
    · exact ⟨.inr now, .inr now⟩
    · exact ⟨.inl rfl, .inl rfl⟩
  · rintro result last (rfl | ⟨⟨error, impossible⟩, -⟩)
    · exact ⟨.inr now, now⟩
    · cases impossible

theorem calls_linkLayer (state : OriginState) (below layer : Nat) :
    Calls Aside (linkLayer state below layer) := by
  unfold linkLayer
  split
  · exact ⟨trivial, fun answer => trivial⟩
  · refine ⟨trivial, fun answer => ?_⟩
    cases answer with
    | ok info => trivial
    | error error =>
        change Calls Aside (if stackNoLongerMatches error then _ else _)
        split
        · refine ⟨trivial, fun answer => ?_⟩
          cases answer with
          | ok dissolved => exact ⟨trivial, fun answer => trivial⟩
          | error error =>
              change Calls Aside (if alreadyDissolved error then _ else _)
              split
              · exact ⟨trivial, fun answer => trivial⟩
              · trivial
        · trivial

/-- A saved state whose chain has one more layer, with the records of the carried
changes. -/
structure Stacks (share : Share) (carried : LocalChanges) (state saved : OriginState) : Prop where
  files : saved.files = state.files
  lfDigests : saved.lfDigests = state.lfDigests
  onTop : ∃ layer, saved.openLayers = state.openLayers ++ [layer] ∧
    List.Forall₂ (RecordOf share.tree carried) carried.changes layer.files

/-- A run of `stack_new_layer` that returns has saved one more layer. -/
theorem ensures_stackNewLayer (share : Share) (state : OriginState) (top : Proposal)
    (topHead : Sha) (carried : LocalChanges) :
    Ensures recordedState
      (Programs.Finishes (fun saved => saved = state ∨ Stacks share carried state saved)
        fun _ => Stacks share carried state)
      (stackNewLayer share state top topHead carried) state := by
  unfold stackNewLayer
  refine ensures_aside ((calls_collectChanges share carried).mono Aside.of_quiet)
    (returns_collectChanges share carried) (.inl rfl) fun collected recorded => ?_
  refine ensures_aside (calls_perform trivial) (returns_anything _) (.inl rfl) fun tree _ => ?_
  refine ensures_aside (calls_perform trivial) (returns_anything _) (.inl rfl) fun commit _ => ?_
  refine ensures_aside (calls_perform trivial) (returns_anything _) (.inl rfl) fun _ _ => ?_
  refine ensures_aside (calls_perform trivial) (returns_anything _) (.inl rfl) fun handle _ => ?_
  refine ensures_aside (calls_linkLayer _ _ _) (returns_anything _) (.inl rfl) fun linked _ => ?_
  -- the numbers of the forge's stack leave the chain as it is
  have stacked : ∀ (saved : OriginState) (layer : Proposal), saved.files = state.files →
      saved.lfDigests = state.lfDigests → saved.proposals = state.proposals ++ [layer] →
      layer.status = .opened → layer.files = collected.files →
        Stacks share carried state saved := by
    intro saved layer files lfDigests chain opened isFiles
    refine ⟨files, lfDigests, layer, ?_, isFiles ▸ recorded⟩
    rw [OriginState.openLayers, chain, List.filter_append, OriginState.openLayers]
    exact congrArg _ (List.filter_cons_of_pos (decide_eq_true opened))
  cases linked with
  | ok number => exact ensures_save (stacked _ _ rfl rfl rfl rfl rfl)
  | error error => exact ensures_save (stacked _ _ rfl rfl rfl rfl rfl)

end Stacking

/-- What a share compares with: the base copies, and the digests that describe
the stamps of a tip. -/
def Share.comparing (share : Share) (state : OriginState) (tip : Snapshot) : Detector :=
  { share.detector with
    baseCopies := some share.copies
    lfDigests := some (trustedDigests state tip) }

/-- Over a recorded state just the changes that were not carried are unshared. -/
def Partitions (share : Share) (local_ carried : LocalChanges) (saved : OriginState) : Prop :=
  ∃ rest, share.detect saved saved.effectiveTipFiles = .ok rest ∧
    ∀ change, change ∈ rest.changes ↔ change ∈ local_.changes ∧ change ∉ carried.changes

section Partition

variable {share : Share} {state saved : OriginState} {local_ carried : LocalChanges}
  {files : Option (List Text)}
  (detected : share.detect state state.effectiveTipFiles = .ok local_)
  (selected : selectShareFiles local_ files = .ok carried)
  (stacked : Stacks share carried state saved)
include detected selected stacked

theorem Stacks.carries :
    (share.comparing state state.effectiveTipFiles).Carries share.tree state.effectiveTipFiles
      saved.effectiveTipFiles local_ carried.changes := by
  obtain ⟨layer, chain, recorded⟩ := stacked.onTop
  have isTip : saved.effectiveTipFiles =
      layer.files.foldl (overlay state.files) state.effectiveTipFiles := by
    rw [OriginState.effectiveTipFiles, chain, stacked.files, tipFilesOver, List.foldl_append]
    rfl
  obtain ⟨spelled, kept⟩ := selected_changes selected
  rw [isTip]
  exact Detector.carries_of_records detected spelled kept recorded

theorem Stacks.partitions (distinct : share.detector.DistinctOnDisk share.tree) :
    Partitions share local_ carried saved := by
  have carries := stacked.carries detected selected
  have sameDigests : ∀ tip, trustedDigests saved tip = trustedDigests state tip := by
    intro tip
    rw [trustedDigests, trustedDigests, stacked.files, stacked.lfDigests]
  have agree : ∀ path,
      saved.effectiveTipFiles.lookup path = state.effectiveTipFiles.lookup path →
      ((some (trustedDigests state saved.effectiveTipFiles)).bind
          fun digests => digests.lookup path) =
        (share.comparing state state.effectiveTipFiles).lfDigests.bind
          fun digests => digests.lookup path :=
    fun path same => trustedDigests_congr same
  obtain ⟨rest, succeeded⟩ := Detector.detect_next
    (some (trustedDigests state saved.effectiveTipFiles)) detected distinct carries
  refine ⟨rest, ?_, fun change => ?_⟩
  · rw [Share.detect, sameDigests]
    exact succeeded
  rw [Detector.mem_changes succeeded]
  constructor
  · intro reports
    obtain ⟨before, uncarried⟩ := carries.reported_before detected distinct agree reports
    exact ⟨(Detector.mem_changes detected).mpr before, uncarried⟩
  · rintro ⟨member, uncarried⟩
    exact carries.reported_again detected distinct agree
      ((Detector.mem_changes detected).mp member) uncarried

end Partition

/-- Stacked shares partition the local work: a run of `stack_new_layer` that has
recorded its layer leaves just the changes it did not carry unshared, and when it
carried them all the tip has the stamps of the files on disk. -/
theorem stacked_shares_partition (share : Share) (state : OriginState)
    {local_ carried : LocalChanges} {files : Option (List Text)}
    (detected : share.detect state state.effectiveTipFiles = .ok local_)
    (distinct : share.detector.DistinctOnDisk share.tree)
    (selected : selectShareFiles local_ files = .ok carried) (top : Proposal) (topHead : Sha)
    {ending : Ending RemoteError ProposeOutcome} {saved : OriginState}
    (run : Runs recordedState state (stackNewLayer share state top topHead carried) ending saved) :
    (saved = state ∧ ∀ outcome, ending ≠ .returned outcome) ∨
      Stacks share carried state saved ∧ Partitions share local_ carried saved ∧
        (carried.changes = local_.changes →
          (∃ rest, share.detect saved saved.effectiveTipFiles = .ok rest ∧ rest.changes = []) ∧
            (share.detector.FoldsApart share.tree state.effectiveTipFiles →
              (∀ path bytes, share.detector.OnDisk share.tree path bytes →
                Detector.Small bytes) →
              (∀ path, ¬(share.comparing state state.effectiveTipFiles).TextTwin share.tree
                state.effectiveTipFiles path) →
              ∀ path, share.detector.policy.takesPart path = true →
                saved.effectiveTipFiles.lookup path =
                  (share.tree.lookup path).map share.detector.stampOfContent)) := by
  have left : (saved = state ∧ ∀ outcome, ending ≠ .returned outcome) ∨
      Stacks share carried state saved := by
    have finishes := (ensures_stackNewLayer share state top topHead carried).of_run run
    cases ending with
    | returned outcome => exact .inr finishes
    | failed error => exact finishes.imp_left fun same => ⟨same, fun outcome => by simp⟩
    | cut => exact finishes.imp_left fun same => ⟨same, fun outcome => by simp⟩
  refine left.imp_right fun stacked => ?_
  have partitions := stacked.partitions detected selected distinct
  refine ⟨stacked, partitions, fun whole => ⟨?_, ?_⟩⟩
  · obtain ⟨rest, succeeded, partitioned⟩ := partitions
    refine ⟨rest, succeeded, List.eq_nil_iff_forall_not_mem.mpr fun change member => ?_⟩
    have both := (partitioned change).mp member
    exact both.2 (whole ▸ both.1)
  · intro apart small plain path takes
    have carries := stacked.carries detected selected
    rw [whole] at carries
    exact carries.stamps_disk detected apart small plain takes

section Spellings

open Detector

/-- A share of the one file of a domain. -/
def loneShare (path content : String) : Share where
  spec := ⟨"team/notes", none, "main"⟩
  domainName := "notes"
  detector := localIndexes
  tree := AList.singleton path.toList (toUtf8 content.toList)
  copies := ∅
  title := none
  described := true
  body _ := ""
  proposal := none
  stacksAllowed := true
  files := none
  authorLogin := none
  branchName := "share-1"

def loneLayer (files : List ProposedFile) : Proposal :=
  ⟨1, "", "share-1", "Share", .opened, files, none, none, none, none⟩

section

variable {path content : String} {file : Path} {bytes : Bytes}
  (onDisk : localIndexes.OnDisk (loneShare path content).tree file bytes)
include onDisk

theorem path_of_lone : file = path.toList := by
  have member : file ∈ (loneShare path content).tree :=
    AList.lookup_isSome.mp (Option.isSome_of_eq_some onDisk.1)
  exact List.mem_singleton.mp member

theorem content_of_lone : bytes = toUtf8 content.toList := by
  obtain rfl := path_of_lone onDisk
  have held : (loneShare path content).tree.lookup path.toList =
      some (toUtf8 content.toList) :=
    AList.mem_lookup_iff.mpr List.mem_cons_self
  exact Option.some.inj (onDisk.1.symm.trans held)

end

theorem distinct_lone (path content : String) :
    localIndexes.DistinctOnDisk (loneShare path content).tree :=
  fun _ _ _ _ first second _ => (path_of_lone first).trans (path_of_lone second).symm

/-- A domain with a revised file and a new one. -/
def twoFileShare : Share :=
  { loneShare "a.md" "z" with
    tree := [file "a.md" "z", file "b.md" "w"].toAList
    copies := [file "a.md" "x"].toAList
    branchName := "share-2" }

/-- The layer below, which revised the file already. -/
def lowerLayer : Proposal :=
  loneLayer [⟨"a.md".toList, .modified, some "y", some "blob", some 1⟩]

def revisedState : OriginState :=
  { OriginState.new "main" with
    files := [entry "a.md" "x"].toAList
    proposals := [lowerLayer] }

def bothChanges : LocalChanges :=
  ⟨[.modified "a.md".toList "z", .added "b.md".toList "w"], [], []⟩

/-- The changes when only the new file is selected. -/
def newFileAlone : LocalChanges := ⟨[.added "b.md".toList "w"], [], []⟩

/-- A forge that takes a new layer. -/
def acceptingForge (state : OriginState) : (request : Call) → request.Answer × OriginState
  | .createBlob _ => (.ok "blob", state)
  | .createTree _ _ => (.ok "tree", state)
  | .createCommit _ _ _ => (.ok "commit", state)
  | .createProposal _ => (.ok ⟨2, ""⟩, state)
  | .createStack _ => (.ok ⟨9, true, []⟩, state)
  | .createBranch _ _ => (.ok (), state)
  | .save saved => (.ok (), saved)
  | .blob _ | .deleteBranch _ | .branchRef _ | .updateBranch _ _ _ | .updateProposal _ _ _ _
  | .closeProposal _ | .proposalState _ | .listOpenProposals | .listStacks _ | .extendStack _ _
  | .dissolveStack _ | .writeFile _ _ | .removeFile _ => (.error .offline, state)

theorem acceptingForge_records (state : OriginState) (request : Call) :
    recordedState state request (acceptingForge state request).1
      (acceptingForge state request).2 := by
  cases request with
  | save saved => exact .inl rfl
  | _ => rfl

/-- The share of some changes on top of the layer below. -/
def stackedOn (carried : LocalChanges) : Except RemoteError ProposeOutcome × OriginState :=
  (stackNewLayer twoFileShare revisedState lowerLayer "head" carried).eval acceptingForge
    revisedState

section

variable {path : Path} {bytes : Bytes} {stamp : BaseStamp}

theorem path_of_twoFile (onDisk : localIndexes.OnDisk twoFileShare.tree path bytes) :
    (path = "a.md".toList ∧ bytes = toUtf8 "z".toList) ∨
      path = "b.md".toList ∧ bytes = toUtf8 "w".toList := by
  have member : path ∈ twoFileShare.tree :=
    AList.lookup_isSome.mp (Option.isSome_of_eq_some onDisk.1)
  have named : path = "a.md".toList ∨ path = "b.md".toList := by
    rcases List.mem_cons.mp member with first | second
    · exact .inl first
    · exact .inr (List.mem_singleton.mp second)
  rcases named with rfl | rfl
  · have held : twoFileShare.tree.lookup "a.md".toList = some (toUtf8 "z".toList) := by
      decide +kernel
    exact .inl ⟨rfl, Option.some.inj (onDisk.1.symm.trans held)⟩
  · have held : twoFileShare.tree.lookup "b.md".toList = some (toUtf8 "w".toList) := by
      decide +kernel
    exact .inr ⟨rfl, Option.some.inj (onDisk.1.symm.trans held)⟩

theorem path_of_revised (listed : localIndexes.Listed revisedState.effectiveTipFiles path stamp) :
    path = "a.md".toList ∧ stamp = ⟨"y", 1⟩ := by
  have member : path ∈ revisedState.effectiveTipFiles :=
    AList.lookup_isSome.mp (Option.isSome_of_eq_some listed.1)
  obtain rfl : path = "a.md".toList := List.mem_singleton.mp member
  have held : revisedState.effectiveTipFiles.lookup "a.md".toList = some ⟨"y", 1⟩ := by
    decide +kernel
  exact ⟨rfl, Option.some.inj (listed.1.symm.trans held)⟩

end

/-- Of a revision over the layer below and a new file, the new file is shared first;
shared together, they leave the tip as the disk is. -/
theorem stacked_shares_partition_revised :
    Partitions twoFileShare bothChanges newFileAlone (stackedOn newFileAlone).2 ∧
      ∀ path, localIndexes.policy.takesPart path = true →
        (stackedOn bothChanges).2.effectiveTipFiles.lookup path =
          (twoFileShare.tree.lookup path).map localIndexes.stampOfContent := by
  have detected : twoFileShare.detect revisedState revisedState.effectiveTipFiles =
      .ok bothChanges := by decide +kernel
  have distinct : twoFileShare.detector.DistinctOnDisk twoFileShare.tree := by
    intro first second bytes content there here alike
    rcases path_of_twoFile there with ⟨rfl, -⟩ | ⟨rfl, -⟩ <;>
      rcases path_of_twoFile here with ⟨rfl, -⟩ | ⟨rfl, -⟩
    · rfl
    · exact absurd alike (by decide)
    · exact absurd alike (by decide)
    · rfl
  have shared (carried : LocalChanges) {files : Option (List Text)}
      (selected : selectShareFiles bothChanges files = .ok carried) :=
    stacked_shares_partition twoFileShare revisedState detected distinct selected lowerLayer "head"
      (runs_eval acceptingForge_records
        (stackNewLayer twoFileShare revisedState lowerLayer "head" carried) revisedState)
  constructor
  · have selected : selectShareFiles bothChanges (some ["b.md".toList]) = .ok newFileAlone := by
      decide +kernel
    rcases shared newFileAlone selected with ⟨-, unfinished⟩ | ⟨-, partitions, -⟩
    · exact absurd rfl (unfinished _)
    · exact partitions
  · have selected : selectShareFiles bothChanges none = .ok bothChanges := rfl
    rcases shared bothChanges selected with ⟨-, unfinished⟩ | ⟨-, -, whole⟩
    · exact absurd rfl (unfinished _)
    refine (whole rfl).2 ?_ ?_ ?_
    · have named {path : Path} (takesPart : (∃ bytes, localIndexes.OnDisk twoFileShare.tree path
          bytes) ∨ ∃ stamp, localIndexes.Listed revisedState.effectiveTipFiles path stamp) :
          path = "a.md".toList ∨ path = "b.md".toList := by
        rcases takesPart with ⟨bytes, there⟩ | ⟨stamp, listed⟩
        · exact (path_of_twoFile there).imp And.left And.left
        · exact .inl (path_of_revised listed).1
      intro first second there here alike
      rcases named there with rfl | rfl <;> rcases named here with rfl | rfl
      · rfl
      · exact absurd alike (by decide)
      · exact absurd alike (by decide)
      · rfl
    · intro path bytes onDisk
      rcases path_of_twoFile onDisk with ⟨-, rfl⟩ | ⟨-, rfl⟩
      · unfold Detector.Small
        decide
      · unfold Detector.Small
        decide
    · rintro path ⟨bytes, stamp, onDisk, listed, -, twin⟩
      obtain ⟨rfl, rfl⟩ := path_of_revised listed
      rcases path_of_twoFile onDisk with ⟨-, rfl⟩ | ⟨impossible, -⟩
      · revert twin
        decide +kernel
      · exact absurd impossible (by decide)

/-- A file whose spelling alone changed stands in the tip as the base spells it. -/
theorem recased_tip_is_not_disk :
    ∃ (share : Share) (state : OriginState) (local_ : LocalChanges) (layer : Proposal),
      share.detect state state.effectiveTipFiles = .ok local_ ∧
        share.detector.DistinctOnDisk share.tree ∧
        (∀ path bytes, share.detector.OnDisk share.tree path bytes → Detector.Small bytes) ∧
        (∀ path, ¬(share.comparing state state.effectiveTipFiles).TextTwin share.tree
          state.effectiveTipFiles path) ∧
        layer.isOpen = true ∧
        List.Forall₂ (RecordOf share.tree local_) local_.changes layer.files ∧
          ∃ path, share.detector.policy.takesPart path = true ∧
            (tipFilesOver state.files (state.openLayers ++ [layer])).lookup path ≠
              (share.tree.lookup path).map share.detector.stampOfContent := by
  refine ⟨loneShare "Notes.md" "old",
    { OriginState.new "main" with files := AList.singleton "notes.md".toList ⟨"old", 3⟩ },
    ⟨[], [], [("notes.md".toList, "Notes.md".toList)]⟩, loneLayer [], by decide,
    distinct_lone _ _, ?_, ?_, rfl, .nil, "Notes.md".toList, by decide, by decide⟩
  · intro path bytes onDisk
    rw [content_of_lone onDisk, Detector.Small]
    decide
  · rintro path ⟨bytes, stamp, onDisk, ⟨listed, -⟩, -⟩
    obtain rfl := path_of_lone onDisk
    have missing : (AList.singleton "notes.md".toList (⟨"old", 3⟩ : BaseStamp) :
        Snapshot).lookup "Notes.md".toList = none := by decide
    exact absurd (missing.symm.trans listed) (Option.some_ne_none stamp).symm

end Spellings

end Crystalline.Remote
