import Crystalline.Sync.FileTables
import Crystalline.Sync.Hosting

/-!
# A host move keeps the rows of the other disk

While a domain's move to another instance is unresolved its rows are kept,
whatever the new host's disk lacks.  Over every run of claims, releases and
complete walks: which rows a walk may take, and which walk may end a move.
-/

namespace Crystalline.Sync

open Remote (Path ReflectionMode)

section Apply

variable {reader : Reader} {shares : Bool} {disk : Disk} {orders : Orders} {slabFiles : Nat}
  {keepUnseen : Bool} {scan : DomainScan} {tables : Tables} {applied : Applied}
  {state next : DomainState} {report : SyncReport}

/-- The parts of an apply of all four tables. -/
theorem applyRows_ok
    (done : applyRows reader disk orders slabFiles keepUnseen scan tables = .ok applied) :
    ∃ engrams attachments pages files,
      applyChanges reader disk orders slabFiles keepUnseen scan tables.engrams = .ok engrams ∧
      attachments = reconcileRows (assetRows reader id) disk tables.attachments scan.assets
        scan.assetDeletes (.of scan.assetsComplete keepUnseen) false engrams.report ∧
      pages = reconcileRows (reflectionRows reader) disk tables.reflections scan.reflections
        scan.reflectionDeletes (.of scan.reflectionsComplete keepUnseen) scan.endsRebuild
        attachments.report ∧
      files = reconcileRows (assetRows reader domainRel) disk tables.reflectionAssets
        scan.reflectionAssets scan.reflectionAssetDeletes
        (.of scan.reflectionsComplete keepUnseen) false pages.report ∧
      applied.tables = ⟨engrams.engrams, attachments.rows, pages.rows, files.rows⟩ ∧
      applied.only = ⟨none, engrams.unseen, attachments.unseen, pages.unseen, files.unseen⟩ := by
  unfold applyRows at done
  cases run : applyChanges reader disk orders slabFiles keepUnseen scan tables.engrams with
  | error refused =>
      rw [run] at done
      cases done
  | ok engrams =>
      rw [run] at done
      obtain rfl := Except.ok.inj done
      exact ⟨engrams, _, _, _, rfl, rfl, rfl, rfl, rfl, rfl⟩

/-- What the end of an apply leaves of the move it read. -/
structure Concluded (scan : DomainScan) (move : HostMove) (applied : Applied)
    (state next : DomainState) (report : SyncReport) : Prop where
  other : mayEnd scan.walker move = false → next.hostMove = state.hostMove
  ended : mayEnd scan.walker move = true → resolves scan move (onlyOf move applied) = true →
    next.hostMove = none
  counted : mayEnd scan.walker move = true → resolves scan move (onlyOf move applied) = false →
    next.hostMove = some (.mark
      { move with walked := true, onlyElsewhere := onlyOf move applied }) ∧
    (0 < (onlyOf move applied).total → report.onlyElsewhere = some (onlyOf move applied))

theorem endHostMove_ok {readText : Option MoveText} {move : HostMove}
    (done : endHostMove scan readText move applied state = .ok (next, report)) :
    next.tables = state.tables ∧ next.lock = state.lock ∧ next.lastHost = state.lastHost ∧
      Concluded scan move applied state next report := by
  unfold endHostMove at done
  dsimp only at done
  cases may : mayEnd scan.walker move with
  | false =>
      rw [may] at done
      obtain ⟨rfl, rfl⟩ := Prod.mk.inj (Except.ok.inj done)
      refine ⟨rfl, rfl, rfl, fun _ => rfl, fun now => ?_, fun now => ?_⟩ <;>
        rw [may] at now <;> cases now
  | true =>
      rw [may, if_pos rfl] at done
      unfold DomainState.swapHostMove at done
      by_cases same : state.hostMove = readText
      · rw [if_pos same] at done
        obtain ⟨rfl, rfl⟩ := Prod.mk.inj (Except.ok.inj done)
        refine ⟨rfl, rfl, rfl, fun now => ?_, fun _ resolved => ?_, fun _ resolved => ?_⟩
        · rw [may] at now
          cases now
        · exact if_pos resolved
        · have unresolved : ¬ resolves scan move (onlyOf move applied) = true := by
            simp [resolved]
          refine ⟨if_neg unresolved, fun positive => if_pos ?_⟩
          simpa [resolved] using positive
      · rw [if_neg same] at done
        cases done

/-- What an apply that answers leaves. -/
theorem applyScan_ok
    (done : applyScan reader shares disk orders slabFiles scan state = .ok (next, report)) :
    lostHost shares scan state = false ∧ ∃ applied,
      applyRows reader disk orders slabFiles (keepsUnseen scan (readMove shares scan state)) scan
        state.tables = .ok applied ∧
      next.tables = applied.tables ∧ next.lock = state.lock ∧ next.lastHost = state.lastHost ∧
      (readMove shares scan state = none → next.hostMove = state.hostMove) ∧
      ∀ move, readMove shares scan state = some move →
        Concluded scan move applied { state with tables := applied.tables } next report := by
  unfold applyScan at done
  split at done
  · cases done
  · next kept =>
    refine ⟨by simpa using kept, ?_⟩
    cases run : applyRows reader disk orders slabFiles
        (keepsUnseen scan (readMove shares scan state)) scan state.tables with
    | error refused =>
        rw [run] at done
        cases done
    | ok applied =>
        rw [run] at done
        change concludeMove _ _ _ _ _ = _ at done
        refine ⟨applied, rfl, ?_⟩
        cases read : readMove shares scan state with
        | none =>
            rw [read] at done
            obtain ⟨rfl, rfl⟩ := Prod.mk.inj (Except.ok.inj done)
            refine ⟨rfl, rfl, rfl, fun _ => rfl, fun move some => ?_⟩
            cases some
        | some move =>
            rw [read] at done
            obtain ⟨tables, lock, lastHost, concluded⟩ := endHostMove_ok done
            refine ⟨tables, lock, lastHost, fun none => ?_, fun other same => ?_⟩
            · cases none
            · obtain rfl := Option.some.inj same
              exact concluded

end Apply

namespace Walk

/-- Whether the walk found an engram file at a path. -/
def Saw (walk : Walk) (path : Path) : Prop :=
  ∃ found, survey walk.walked walk.layout = .ok found ∧ (found.current.lookup path).isSome

/-- What a made walk's scan is like: it saw every file table, looked for no path
in vain, and shares out the recorded paths it did not find. -/
structure Complete (walk : Walk) : Prop where
  named : ∃ walker, walk.scan.walker = some walker
  assets : walk.scan.assetsComplete = true
  noDeletes : walk.scan.assetDeletes = [] ∧ walk.scan.reflectionDeletes = [] ∧
    walk.scan.reflectionAssetDeletes = []
  formed : walk.scan.WellFormed
  unfound : ∀ path, (walk.scan.snapshot.lookup path).isSome → ¬ walk.Saw path →
    path ∈ walk.scan.moves.map Prod.fst ∨ path ∈ walk.scan.deletes

theorem complete_of_scan {reader : Reader} {layout : DomainLayout} {walked hashed : Disk}
    {orders : Orders} {stamps : Stamps} {force : Bool} {scan : DomainScan} (accept : Bool)
    (walker : String)
    (done : scanDomain reader layout walked hashed orders stamps force = .ok scan) :
    Complete ⟨layout, walked, { scan with acceptDisk := accept, walker := some walker }⟩ := by
  obtain ⟨found, surveyed, rfl⟩ := scanDomain_ok done
  have given : Given stamps found.current (unfound orders stamps found) :=
    given_unfound (survey_stated surveyed)
  have formed := @wellFormed_classifyChanges reader hashed orders stamps found.current
    (unfound orders stamps found) [] force given
  obtain ⟨moves, deletes, -⟩ := @classifyChanges_lists reader hashed orders stamps found.current
    (unfound orders stamps found) [] force
  refine ⟨⟨walker, rfl⟩, rfl, ⟨rfl, rfl, rfl⟩, ?_, fun path recorded unseen => ?_⟩
  · exact ⟨formed.sources, formed.targets, formed.deletes, formed.changes, formed.sourceRecorded,
      formed.targetNew, formed.deleteRecorded, formed.deleteStays, formed.changeApart⟩
  · have vanished : path ∈ unfound orders stamps found := by
      refine mem_unfound.mpr ⟨recorded, ?_⟩
      by_contra here
      exact unseen ⟨found, surveyed, Option.isSome_iff_ne_none.mpr here⟩
    change path ∈ List.map Prod.fst (classifyChanges reader hashed orders stamps found.current
      (unfound orders stamps found) [] force).moves ∨ path ∈ (classifyChanges reader hashed orders
      stamps found.current (unfound orders stamps found) [] force).deletes
    rw [moves, deletes]
    exact vanished_of_classified.mp vanished

end Walk

/-- A claim that moves the domain, and marks the move. -/
def Event.Marks (event : Event) : Prop :=
  ∃ claim, event.action = .claimed claim ∧
    (claimDomainHost claim event.before.lock).holder = claim.claimer ∧
    event.before.host ≠ some claim.claimer

/-- An applied walk of an instance that counted and reported rows it did not see,
and left the mark standing. -/
def Event.Counts (walker : String) (event : Event) : Prop :=
  ∃ walk disk report, event.action = .applied walk disk report ∧
    walk.scan.walker = some walker ∧
    event.before.hostMove.isSome ∧ event.after.hostMove.isSome ∧
    ∃ only, report.onlyElsewhere = some only ∧ 0 < only.total

/-- An applied walk of an instance that could not read all of the Reflection: it
leaves the mark standing also when it counted nothing. -/
def Event.Misses (walker : String) (event : Event) : Prop :=
  ∃ walk disk report, event.action = .applied walk disk report ∧
    walk.scan.walker = some walker ∧ walk.scan.reflectionsComplete = false

/-- Whether some event is in a history since its last mark. -/
def Since (holds : Event → Prop) : List Event → Prop
  | [] => False
  | event :: past => ¬ event.Marks ∧ (holds event ∨ Since holds past)

/-- A walk that is not told to accept the disk, or that follows a walk that
counted if it follows one that missed some of the Reflection. -/
def Heard (past : List Event) (walk : Walk) : Prop :=
  walk.scan.acceptDisk = true → ∀ walker, walk.scan.walker = some walker →
    Since (Event.Misses walker) past → Since (Event.Counts walker) past

/-- A walk told to accept the disk, by the instance that marked the move, after
one that counted. -/
def Accepts (past : List Event) (walk : Walk) (before : DomainState) : Prop :=
  walk.scan.acceptDisk = true ∧ ∃ mark walker, before.hostMove = some (.mark mark) ∧
    mark.claimant = some walker ∧ walk.scan.walker = some walker ∧
      Since (Event.Counts walker) past

/-- When a walk may take rows it did not see. -/
def MayDrop (past : List Event) (walk : Walk) (before : DomainState) : Prop :=
  before.hostMove = none ∨ Accepts past walk before

/-- An engram row whose file a walk moved to a path it saw. -/
def RowRenamed (walk : Walk) (after : DomainState) (path : Path) (row : EngramRow) : Prop :=
  ∃ target permalink, (path, target) ∈ walk.scan.moves ∧
    after.tables.engrams.lookup target = some { row with permalink := permalink }

/-- How a walk that ends a move stands to an engram row: it saw the file, the
file is on its disk at the apply, the row or the other end of its move was
written since the walk's snapshot, the row went to a path the walk saw, or it
never was an engram's. -/
inductive Accounted (walk : Walk) (disk : Disk) (before after : DomainState) (path : Path)
    (row : EngramRow) : Prop where
  | seen (saw : walk.Saw path)
  | onDisk (here : disk.existsAt path = true)
  | written (since : walk.scan.snapshot.lookup path ≠ some row.stamp)
  | endWritten (target : Path) (ends : (path, target) ∈ walk.scan.moves)
      (since : before.tables.engrams.lookup target ≠ none)
  | renamed (renamed : RowRenamed walk after path row)
  | never (never : Applying.neverEngram walk.scan.reflection path = true)

/-- What a run keeps at every event. -/
structure Kept (past : List Event) (event : Event) : Prop where
  /-- A claim that moves the domain to another instance marks the move. -/
  marked : ∀ claim, event.action = .claimed claim → event.before.host ≠ event.after.host →
    ∃ mark, event.after.hostMove = some (.mark mark) ∧ mark.claimant = event.after.host ∧
      mark.walked = false
  /-- Every other row a walk takes was free to go. -/
  engrams : ∀ path row, event.before.tables.engrams.lookup path = some row →
    event.after.tables.engrams.lookup path = none →
    ∃ walk disk report, event.action = .applied walk disk report ∧
      (RowRenamed walk event.after path row ∨
        Applying.neverEngram walk.scan.reflection path = true ∨
        (Heard past walk → MayDrop past walk event.before))
  attachments : ∀ path, event.before.tables.attachments.lookup path ≠ none →
    event.after.tables.attachments.lookup path = none →
    ∃ walk disk report, event.action = .applied walk disk report ∧
      (Heard past walk → MayDrop past walk event.before)
  reflections : ∀ path, event.before.tables.reflections.lookup path ≠ none →
    event.after.tables.reflections.lookup path = none →
    ∃ walk disk report, event.action = .applied walk disk report ∧
      (Heard past walk → MayDrop past walk event.before)
  reflectionAssets : ∀ path, event.before.tables.reflectionAssets.lookup path ≠ none →
    event.after.tables.reflectionAssets.lookup path = none →
    ∃ walk disk report, event.action = .applied walk disk report ∧
      (Heard past walk → MayDrop past walk event.before)
  /-- Who ends a mark, and what its walk did with every row. -/
  ended : event.before.hostMove ≠ none → event.after.hostMove = none →
    ∃ walk disk report, event.action = .applied walk disk report ∧
      ((Heard past walk → Accepts past walk event.before) ∨
        (∃ mark, event.before.hostMove = some (.mark mark) ∧
          mark.claimant = walk.scan.walker) ∧
        walk.scan.reflectionsComplete = true ∧
        (∀ path row, event.before.tables.engrams.lookup path = some row →
          Accounted walk disk event.before event.after path row) ∧
        (∀ path, event.before.tables.attachments.lookup path ≠ none →
          ∃ candidate ∈ walk.scan.assets, candidate.path = path) ∧
        (∀ path, event.before.tables.reflections.lookup path ≠ none →
          ∃ candidate ∈ walk.scan.reflections, candidate.path = path) ∧
        (∀ path, event.before.tables.reflectionAssets.lookup path ≠ none →
          ∃ candidate ∈ walk.scan.reflectionAssets, candidate.path = path))
  /-- A walk whose walker lost the lock writes nothing. -/
  lost : ∀ walk, ((∃ disk report, event.action = .applied walk disk report) ∨
      ∃ error, event.action = .refused walk error) →
    event.before.lock.map DomainHost.holder ≠ walk.scan.walker → event.after = event.before

/-- A standing mark names its claimant, and since a walked one was set a walk of the
claimant counted, or missed some of the Reflection. -/
def MarkSane (past : List Event) (state : DomainState) : Prop :=
  ∀ text, state.hostMove = some text → ∃ mark claimant, text = .mark mark ∧
    mark.claimant = some claimant ∧ (mark.walked = true →
      Since (Event.Counts claimant) past ∨ Since (Event.Misses claimant) past)

section Applied

variable {reader : Reader} {disk : Disk} {orders : Orders} {slabFiles : Nat} {walk : Walk}
  {past : List Event} {state next : DomainState} {report : SyncReport}

theorem readMove_complete (complete : walk.Complete) :
    readMove true walk.scan state = state.hostMove.map parseHostMove := by
  rw [readMove, readText, complete.assets]
  rfl

theorem accepts_of_scan (sane : MarkSane past state) (heard : Heard past walk) {text : MoveText}
    (marked : state.hostMove = some text)
    (accepted : accepts walk.scan (some (parseHostMove text)) = true) :
    Accepts past walk state := by
  obtain ⟨mark, claimant, rfl, named, counted⟩ := sane text marked
  simp only [accepts, mayEnd, parseHostMove, named, Option.any_some, Bool.and_eq_true,
    Option.isNone_some, Bool.false_or, decide_eq_true_eq] at accepted
  have walker := accepted.1.1.symm
  exact ⟨accepted.1.2, mark, claimant, marked, named, walker,
    (counted accepted.2).elim id (heard accepted.1.2 claimant walker)⟩

section

variable (complete : walk.Complete)
include complete

theorem mayDrop_of_scan (sane : MarkSane past state) (heard : Heard past walk)
    (drops : keepsUnseen walk.scan (readMove true walk.scan state) = false) :
    MayDrop past walk state := by
  rw [readMove_complete complete] at drops
  cases marked : state.hostMove with
  | none => exact .inl marked
  | some text =>
      rw [marked] at drops
      refine .inr (accepts_of_scan sane heard marked ?_)
      simpa [keepsUnseen] using drops

/-- Where an apply counted no engram row, every one is accounted for. -/
theorem engram_accounted {final : Applying}
    (changes : applyChanges reader disk orders slabFiles true walk.scan state.tables.engrams =
      .ok final) (uncounted : final.unseen = 0) (same : next.tables.engrams = final.engrams)
    {path : Path} {row : EngramRow} (held : state.tables.engrams.lookup path = some row) :
    Accounted walk disk state next path row := by
  by_cases since : walk.scan.snapshot.lookup path = some row.stamp
  swap
  · exact .written since
  by_cases saw : walk.Saw path
  · exact .seen saw
  have unmoved : stampMoved state.tables.engrams.fileStamps walk.scan.snapshot path = false := by
    simp [stampMoved, held, since]
  have recorded : (walk.scan.snapshot.lookup path).isSome := by simp [since]
  rcases complete.unfound path recorded saw with source | deleted
  · obtain ⟨⟨_, target⟩, member, rfl⟩ := List.mem_map.mp source
    rcases lookup_ends complete.formed changes member with ⟨stale, -, -⟩ | ⟨-, rowMoved⟩
    · refine .endWritten target member fun new => ?_
      have unrecorded := complete.formed.targetNew _ member
      simp only [Applying.moveStale, unmoved, Bool.false_or] at stale
      simp [stampMoved, new, unrecorded] at stale
    · obtain ⟨permalink, stands⟩ := rowMoved.stands row held
      exact .renamed ⟨target, permalink, member, by rw [same]; exact stands⟩
  · have none := unseen_final changes
    rw [uncounted, eq_comm, List.sum_eq_zero_iff_forall_eq_nat] at none
    have kept := none _ (List.mem_map_of_mem deleted)
    simp only [Applying.keeps, unmoved, Bool.not_false, Bool.true_and, Bool.toNat_eq_zero,
      Applying.isBack] at kept
    cases never : Applying.neverEngram walk.scan.reflection path with
    | true => exact .never never
    | false =>
        rw [never] at kept
        exact .onDisk (by simpa using kept)

/-- A walk that does not take the disk as it is ends a mark only with every row
accounted for. -/
theorem accounted_of_scan {text : MoveText} (marked : state.hostMove = some text)
    (refuses : accepts walk.scan (some (parseHostMove text)) = false)
    (done : applyScan reader true disk orders slabFiles walk.scan state = .ok (next, report))
    (gone : next.hostMove = none) :
    mayEnd walk.scan.walker (parseHostMove text) = true ∧
      walk.scan.reflectionsComplete = true ∧
      (∀ path row, state.tables.engrams.lookup path = some row →
        Accounted walk disk state next path row) ∧
      (∀ path, state.tables.attachments.lookup path ≠ none →
        ∃ candidate ∈ walk.scan.assets, candidate.path = path) ∧
      (∀ path, state.tables.reflections.lookup path ≠ none →
        ∃ candidate ∈ walk.scan.reflections, candidate.path = path) ∧
      (∀ path, state.tables.reflectionAssets.lookup path ≠ none →
        ∃ candidate ∈ walk.scan.reflectionAssets, candidate.path = path) := by
  obtain ⟨-, applied, rows, tables, -, -, -, concluded⟩ := applyScan_ok done
  have read : readMove true walk.scan state = some (parseHostMove text) := by
    rw [readMove_complete complete, marked]
    rfl
  have keeps : keepsUnseen walk.scan (readMove true walk.scan state) = true := by
    rw [read]
    simp [keepsUnseen, refuses]
  rw [keeps] at rows
  have conclusion := concluded _ read
  have may : mayEnd walk.scan.walker (parseHostMove text) = true := by
    by_contra other
    have kept := conclusion.other (by simpa using other)
    rw [gone] at kept
    exact absurd (kept.trans marked) (Option.some_ne_none text).symm
  have resolved : resolves walk.scan (parseHostMove text)
      (onlyOf (parseHostMove text) applied) = true := by
    by_contra unresolved
    have counted := (conclusion.counted may (by simpa using unresolved)).1
    rw [gone] at counted
    cases counted
  simp only [resolves, refuses, may, Bool.false_or, Bool.true_and, Bool.and_eq_true,
    decide_eq_true_eq] at resolved
  obtain ⟨zero, whole⟩ := resolved
  obtain ⟨engrams, attachments, pages, files, changes, attached, paged, filed, same, only⟩ :=
    applyRows_ok rows
  rw [complete.assets] at attached
  rw [whole] at paged filed
  simp only [onlyOf, only, OnlyElsewhere.total] at zero
  refine ⟨may, whole, ?_, ?_, ?_, ?_⟩
  · intro path row held
    refine engram_accounted complete changes (by omega) ?_ held
    rw [tables, same]
  · intro path recorded
    have none : attachments.unseen = 0 := by omega
    rw [attached] at none
    exact seen_of_uncounted none recorded
  · intro path recorded
    have none : pages.unseen = 0 := by omega
    rw [paged] at none
    exact seen_of_uncounted none recorded
  · intro path recorded
    have none : files.unseen = 0 := by omega
    rw [filed] at none
    exact seen_of_uncounted none recorded

end

section

variable (complete : walk.Complete) (sane : MarkSane past state)
  (done : applyScan reader true disk orders slabFiles walk.scan state = .ok (next, report))
include complete sane done

/-- An applied walk keeps what a run keeps. -/
theorem kept_applied : Kept past ⟨state, .applied walk disk report, next⟩ := by
  obtain ⟨notLost, applied, rows, tables, -, -, unmoved, -⟩ := applyScan_ok done
  obtain ⟨engrams, attachments, pages, files, changes, attached, paged, filed, same, -⟩ :=
    applyRows_ok rows
  obtain ⟨noAssets, noPages, noFiles⟩ := complete.noDeletes
  rw [noAssets] at attached
  rw [noPages] at paged
  rw [noFiles] at filed
  constructor
  · intro claim other
    cases other
  · intro path row held gone
    refine ⟨walk, disk, report, rfl, ?_⟩
    rw [tables, same] at gone
    rcases gone_engram complete.formed changes held gone with
      ⟨target, permalink, member, -, stands⟩ | ⟨-, erased⟩
    · exact .inl ⟨target, permalink, member, by rw [tables, same]; exact stands⟩
    · cases never : Applying.neverEngram walk.scan.reflection path with
      | true => exact .inr (.inl rfl)
      | false =>
          refine .inr (.inr fun heard => mayDrop_of_scan complete sane heard ?_)
          simp only [Applying.erases, never, Bool.and_eq_true, Bool.not_eq_true',
            Bool.not_false, Bool.and_true] at erased
          exact erased.2
  · intro path recorded gone
    rw [tables, same] at gone
    change attachments.rows.lookup path = none at gone
    rw [attached] at gone
    exact ⟨walk, disk, report, rfl, fun heard =>
      mayDrop_of_scan complete sane heard (gone_of_walk recorded gone).2.1⟩
  · intro path recorded gone
    rw [tables, same] at gone
    change pages.rows.lookup path = none at gone
    rw [paged] at gone
    exact ⟨walk, disk, report, rfl, fun heard =>
      mayDrop_of_scan complete sane heard (gone_of_walk recorded gone).2.1⟩
  · intro path recorded gone
    rw [tables, same] at gone
    change files.rows.lookup path = none at gone
    rw [filed] at gone
    exact ⟨walk, disk, report, rfl, fun heard =>
      mayDrop_of_scan complete sane heard (gone_of_walk recorded gone).2.1⟩
  · intro stood gone
    refine ⟨walk, disk, report, rfl, ?_⟩
    obtain ⟨text, marked⟩ := Option.ne_none_iff_exists'.mp stood
    cases accepted : accepts walk.scan (some (parseHostMove text)) with
    | true => exact .inl fun heard => accepts_of_scan sane heard marked accepted
    | false =>
        obtain ⟨may, rest⟩ := accounted_of_scan complete marked accepted done gone
        obtain ⟨mark, claimant, rfl, named, -⟩ := sane text marked
        refine .inr ⟨⟨mark, marked, ?_⟩, rest⟩
        simpa [mayEnd, parseHostMove, named] using may
  · intro other this apart
    have lost : lostHost true walk.scan state = true := by
      obtain ⟨walker, named⟩ := complete.named
      rcases this with ⟨_, _, same⟩ | ⟨_, same⟩
      · obtain ⟨rfl, -, -⟩ := Action.applied.inj same
        rw [named] at apart
        simpa [lostHost, named] using apart
      · cases same
    rw [lost] at notLost
    cases notLost

/-- After an applied walk the mark is as sane as before. -/
theorem markSane_applied : MarkSane (⟨state, .applied walk disk report, next⟩ :: past) next := by
  obtain ⟨-, applied, -, -, -, -, unmoved, concluded⟩ := applyScan_ok done
  rw [readMove_complete complete] at unmoved concluded
  have unmarked : ¬ Event.Marks ⟨state, .applied walk disk report, next⟩ := by
    rintro ⟨claim, other, -⟩
    cases other
  intro text marked
  cases before : state.hostMove with
  | none =>
      rw [unmoved (by rw [before]; rfl), before] at marked
      cases marked
  | some old =>
      obtain ⟨mark, claimant, rfl, named, counted⟩ := sane old before
      have conclusion := concluded mark (by rw [before]; rfl)
      cases may : mayEnd walk.scan.walker mark with
      | false =>
          rw [conclusion.other may, before] at marked
          obtain rfl := Option.some.inj marked
          exact ⟨mark, claimant, rfl, named, fun walked =>
            (counted walked).imp (fun counts => ⟨unmarked, .inr counts⟩)
              fun misses => ⟨unmarked, .inr misses⟩⟩
      | true =>
          cases resolved : resolves walk.scan mark (onlyOf mark applied) with
          | true =>
              rw [conclusion.ended may resolved] at marked
              cases marked
          | false =>
              obtain ⟨kept, reported⟩ := conclusion.counted may resolved
              have standing := marked
              rw [kept] at marked
              obtain rfl := Option.some.inj marked
              refine ⟨_, claimant, rfl, named, fun _ => ?_⟩
              have walker : walk.scan.walker = some claimant := by
                simpa [mayEnd, named, eq_comm] using may
              simp only [resolves, may, Bool.or_eq_false_iff, Bool.true_and,
                Bool.and_eq_false_iff, decide_eq_false_iff_not] at resolved
              rcases resolved.2 with positive | unread
              · have more : 0 < (onlyOf mark applied).total := Nat.pos_of_ne_zero positive
                exact .inl ⟨unmarked, .inl ⟨walk, disk, report, rfl, walker, by simp [before],
                  by simp [standing], _, reported more, more⟩⟩
              · exact .inr ⟨unmarked, .inl ⟨walk, disk, report, rfl, walker, unread⟩⟩

end

end Applied

def Action.isClaimed : Action → Bool
  | .claimed _ => true
  | .released _ _ | .handedBack _ _ _ | .renewed _ _ _ | .scanned _ | .applied _ _ _
  | .refused _ _ => false

def Action.isApplied : Action → Bool
  | .applied _ _ _ => true
  | .claimed _ | .released _ _ | .handedBack _ _ _ | .renewed _ _ _ | .scanned _
  | .refused _ _ => false

def Action.isRefused : Action → Bool
  | .refused _ _ => true
  | .claimed _ | .released _ _ | .handedBack _ _ _ | .renewed _ _ _ | .scanned _
  | .applied _ _ _ => false

section Steps

variable {past : List Event} {before after : DomainState} {action : Action}

/-- A step that writes no row and ends no move keeps what a run keeps. -/
theorem kept_rows (same : after.tables = before.tables)
    (stands : before.hostMove ≠ none → after.hostMove ≠ none)
    (marked : ∀ claim, action = .claimed claim → before.host ≠ after.host →
      ∃ mark, after.hostMove = some (.mark mark) ∧ mark.claimant = after.host ∧
        mark.walked = false)
    (quiet : action.isApplied = false) (still : action.isRefused = false ∨ after = before) :
    Kept past ⟨before, action, after⟩ := by
  constructor
  · exact marked
  · intro path row held gone
    change after.tables.engrams.lookup path = none at gone
    rw [same] at gone
    exact absurd (gone.symm.trans held) (Option.some_ne_none row).symm
  · intro path recorded gone
    rw [same] at gone
    exact absurd gone recorded
  · intro path recorded gone
    rw [same] at gone
    exact absurd gone recorded
  · intro path recorded gone
    rw [same] at gone
    exact absurd gone recorded
  · exact fun stood gone => absurd gone (stands stood)
  · rintro walk (⟨disk, report, applied⟩ | ⟨error, refused⟩) -
    · have applied : action = .applied walk disk report := applied
      rw [applied] at quiet
      cases quiet
    · have refused : action = .refused walk error := refused
      exact still.resolve_left (by rw [refused]; simp [Action.isRefused])

theorem markSane_kept (sane : MarkSane past before) (same : after.hostMove = before.hostMove)
    (unmarked : ¬ Event.Marks ⟨before, action, after⟩) :
    MarkSane (⟨before, action, after⟩ :: past) after := by
  intro text marked
  obtain ⟨mark, claimant, rfl, named, counted⟩ := sane text (same ▸ marked)
  exact ⟨mark, claimant, rfl, named, fun walked =>
    (counted walked).imp (fun counts => ⟨unmarked, .inr counts⟩)
      fun misses => ⟨unmarked, .inr misses⟩⟩

theorem kept_still (same : after.tables = before.tables)
    (move : after.hostMove = before.hostMove) (noClaim : action.isClaimed = false)
    (quiet : action.isApplied = false) (still : action.isRefused = false ∨ after = before) :
    Kept past ⟨before, action, after⟩ := by
  refine kept_rows same (fun stood => move ▸ stood) ?_ quiet still
  intro claim claimed
  rw [claimed] at noClaim
  cases noClaim

theorem not_marks (noClaim : action.isClaimed = false) :
    ¬ Event.Marks ⟨before, action, after⟩ := by
  rintro ⟨claim, claimed, -⟩
  have claimed : action = .claimed claim := claimed
  rw [claimed] at noClaim
  cases noClaim

variable {claim : Claim}

theorem claim_refused
    (other : (claimDomainHost claim before.lock).holder ≠ claim.claimer) :
    before.claimAndMark claim = before := by
  unfold DomainState.claimAndMark
  dsimp only
  rw [if_neg other]
  cases lock : before.lock with
  | none =>
      rw [lock] at other
      exact absurd rfl other
  | some held =>
      rw [lock] at other
      unfold claimDomainHost at other ⊢
      dsimp only at other ⊢
      split at other
      · exact absurd rfl other
      · next stale =>
        rw [if_neg stale, ← lock]

/-- What an acquired claim leaves. -/
theorem claim_acquired
    (own : (claimDomainHost claim before.lock).holder = claim.claimer) :
    (before.claimAndMark claim).tables = before.tables ∧
      (before.claimAndMark claim).host = some claim.claimer ∧
      (before.claimAndMark claim).hostMove =
        if before.host ≠ some claim.claimer then some (.mark (before.markOf claim))
        else before.hostMove := by
  unfold DomainState.claimAndMark
  dsimp only
  rw [if_pos own]
  exact ⟨rfl, congrArg some own, rfl⟩

theorem kept_claim : Kept past ⟨before, .claimed claim, before.claimAndMark claim⟩ := by
  by_cases own : (claimDomainHost claim before.lock).holder = claim.claimer
  · obtain ⟨same, host, move⟩ := claim_acquired own
    refine kept_rows same ?_ ?_ rfl (.inl rfl)
    · intro stood
      rw [move]
      split
      · exact Option.some_ne_none _
      · exact stood
    · rintro other - moves
      rw [host] at moves ⊢
      exact ⟨before.markOf claim, move.trans (if_pos moves), rfl, rfl⟩
  · rw [claim_refused own]
    exact kept_rows rfl id (fun other _ moves => absurd rfl moves) rfl
      (.inl rfl)

theorem markSane_claim (sane : MarkSane past before) :
    MarkSane (⟨before, .claimed claim, before.claimAndMark claim⟩ :: past)
      (before.claimAndMark claim) := by
  by_cases own : (claimDomainHost claim before.lock).holder = claim.claimer
  · obtain ⟨-, -, move⟩ := claim_acquired own
    by_cases moves : before.host ≠ some claim.claimer
    · intro text marked
      rw [move, if_pos moves] at marked
      obtain rfl := Option.some.inj marked
      refine ⟨_, claim.claimer, rfl, rfl, fun walked => ?_⟩
      cases walked
    · refine markSane_kept sane (move.trans (if_neg moves)) ?_
      rintro ⟨other, same, -, moved⟩
      obtain rfl := Action.claimed.inj same
      exact moves moved
  · refine markSane_kept sane (by rw [claim_refused own]) ?_
    rintro ⟨other, same, acquired, -⟩
    obtain rfl := Action.claimed.inj same
    exact own acquired

end Steps

/-- What holds of the world along a run. -/
structure Sane (past : List Event) (world : World) : Prop where
  mark : MarkSane past world.state
  waiting : ∀ walk ∈ world.waiting, walk.Complete

theorem mem_of_others {Item : Type*} {item other : Item} {earlier later : List Item}
    (member : other ∈ earlier ++ later) : other ∈ earlier ++ item :: later := by
  rcases List.mem_append.mp member with first | last
  · exact List.mem_append_left _ first
  · exact List.mem_append_right _ (List.mem_cons_of_mem _ last)

variable {past : List Event}

/-- One step keeps the run's invariant, and what it does to rows and marks is
what a run may do. -/
theorem step_sane {reader : Reader} {world next : World} {action : Action} (sane : Sane past world)
    (step : Step reader world action next) :
    Kept past ⟨world.state, action, next.state⟩ ∧
      Sane (⟨world.state, action, next.state⟩ :: past) next := by
  cases step with
  | claim claim =>
      exact ⟨kept_claim, markSane_claim sane.mark, sane.waiting⟩
  | release holder token =>
      have same : (world.state.release holder token).tables = world.state.tables ∧
          (world.state.release holder token).hostMove = world.state.hostMove := by
        unfold DomainState.release
        split <;> exact ⟨rfl, rfl⟩
      exact ⟨kept_still same.1 same.2 rfl rfl (.inl rfl),
        markSane_kept sane.mark same.2 (not_marks rfl), sane.waiting⟩
  | handBack holder token released =>
      exact ⟨kept_still rfl rfl rfl rfl (.inl rfl),
        markSane_kept sane.mark rfl (not_marks rfl), sane.waiting⟩
  | renew holder label now =>
      exact ⟨kept_still rfl rfl rfl rfl (.inl rfl),
        markSane_kept sane.mark rfl (not_marks rfl), sane.waiting⟩
  | scan walker accept layout walked hashed orders force _ done =>
      refine ⟨kept_still rfl rfl rfl rfl (.inl rfl),
        markSane_kept sane.mark rfl (not_marks rfl), fun walk member => ?_⟩
      rcases List.mem_cons.mp member with rfl | waiting
      · exact Walk.complete_of_scan accept walker done
      · exact sane.waiting walk waiting
  | apply walk earlier later disk orders slabFiles done =>
      have complete := sane.waiting walk (by simp)
      refine ⟨kept_applied complete sane.mark done, markSane_applied complete sane.mark done, ?_⟩
      exact fun other member => sane.waiting other (mem_of_others member)
  | refuse walk earlier later disk orders slabFiles failed =>
      exact ⟨kept_still rfl rfl rfl rfl (.inr rfl), markSane_kept sane.mark rfl (not_marks rfl),
        fun other member => sane.waiting other (mem_of_others member)⟩

theorem run_sane {reader : Reader} {start world : World} (fresh : start.Fresh)
    (run : Run reader start past world) : Sane past world := by
  induction run with
  | start =>
      refine ⟨fun text marked => ?_, fun walk member => ?_⟩
      · rw [fresh.unmoved] at marked
        cases marked
      · rw [fresh.idle] at member
        cases member
  | step run step induction => exact (step_sane induction step).2

/-- In every run of claims, releases and complete walks, every event keeps the
rows of the other disk: a claim that moves the domain marks the move, a walk
that was heard takes only rows it was free to take, a mark ends only with every
row accounted for or by a walk that was told to, and a walk without the lock writes
nothing. -/
theorem host_move_keeps_rows {reader : Reader} {start world next : World}
    {past : List Event} {action : Action} (fresh : start.Fresh)
    (run : Run reader start past world) (step : Step reader world action next) :
    Kept past ⟨world.state, action, next.state⟩ :=
  (step_sane (run_sane fresh run) step).1

/-! An old row called `log.md` is never an engram's, so the walk of the new host
takes it while the move stands. -/

namespace TakeOver

def reader : Reader where
  sha256 _ := ""
  permalink _ path := .ok path
  slugify path := path

/-- A disk with an empty domain folder. -/
def disk : Disk where
  root := ["d".toList]
  nodes := AList.singleton ["d".toList] (.folder ⟨true, true⟩)
  named := by decide

def layout : DomainLayout := .bare .off

def orders : Orders := ⟨fun _ => 0, fun _ => 0, fun _ => 0, fun _ => 0⟩

def row : EngramRow := ⟨"log".toList, ⟨1, 1, "a"⟩, []⟩

/-- The database before anyone claimed the domain. -/
def unclaimed (path : Path) : DomainState :=
  ⟨⟨AList.singleton path row, ∅, ∅, ∅⟩, none, none, none⟩

def claim (claimer : String) (token : String) : Claim := ⟨claimer, claimer, 1, 0, true, token⟩

/-- Alpha hosts the domain, then beta takes it over. -/
def claimed (path : Path) : DomainState :=
  ((unclaimed path).claimAndMark (claim "alpha" "1")).claimAndMark (claim "beta" "2")

/-- The two claims, the newest first. -/
def claims (path : Path) : List Event :=
  let alpha := (unclaimed path).claimAndMark (claim "alpha" "1")
  [⟨alpha, .claimed (claim "beta" "2"), claimed path⟩,
    ⟨unclaimed path, .claimed (claim "alpha" "1"), alpha⟩]

def walk (accept : Bool) (scan : DomainScan) : Walk :=
  ⟨layout, disk, { scan with acceptDisk := accept, walker := some "beta" }⟩

/-- Beta's walk of its empty disk, scanned and applied. -/
def walked (accept : Bool) (state : DomainState) :
    Option (DomainScan × DomainState × SyncReport) := do
  let scan ← (scanDomain reader layout disk disk orders state.tables.engrams.fileStamps
    false).toOption
  let done ← (applyScan reader true disk orders 1 (walk accept scan).scan state).toOption
  return (scan, done)

theorem fresh (path : Path) : World.Fresh ⟨unclaimed path, []⟩ := ⟨rfl, rfl, rfl, rfl⟩

theorem run (path : Path) : Run reader ⟨unclaimed path, []⟩ (claims path) ⟨claimed path, []⟩ := by
  have idle : Run reader ⟨unclaimed path, []⟩ [] ⟨unclaimed path, []⟩ := .start _
  have alpha := idle.step (Step.claim (claim "alpha" "1") ⟨unclaimed path, []⟩)
  exact alpha.step (Step.claim (claim "beta" "2")
    ⟨(unclaimed path).claimAndMark (claim "alpha" "1"), []⟩)

theorem steps_of_walked {accept : Bool} {scan : DomainScan} {state next : DomainState} {report : SyncReport}
    (done : walked accept state = some (scan, next, report)) :
    Step reader ⟨state, []⟩ (.scanned (walk accept scan)) ⟨state, [walk accept scan]⟩ ∧
      Step reader ⟨state, [walk accept scan]⟩ (.applied (walk accept scan) disk report)
        ⟨next, []⟩ := by
  unfold walked at done
  cases scanning : scanDomain reader layout disk disk orders state.tables.engrams.fileStamps
      false with
  | error refused =>
      rw [scanning] at done
      cases done
  | ok other =>
      rw [scanning] at done
      cases applying : applyScan reader true disk orders 1 (walk accept other).scan state with
      | error refused =>
          simp [applying, Except.toOption] at done
      | ok outcome =>
          simp only [Except.toOption, applying, Option.pure_def, Option.bind_eq_bind,
            Option.bind_some, Option.some.injEq, Prod.mk.injEq] at done
          obtain ⟨rfl, rfl⟩ := done
          exact ⟨.scan "beta" accept layout disk disk orders false ⟨state, []⟩ scanning,
            .apply (walk accept other) [] [] disk orders 1 applying⟩

/-- A walk that counts, and one told to accept the disk. -/
def twice (path : Path) : Option ((DomainScan × DomainState × SyncReport) ×
    DomainScan × DomainState × SyncReport) := do
  let first ← walked false (claimed path)
  let second ← walked true first.2.1
  return (first, second)

end TakeOver

/-- Beta's first walk counts the row that only alpha's disk holds and keeps it; the
second one, told to accept the disk, takes it. -/
theorem host_move_keeps_rows_accepted :
    ∃ past walk disk report before after,
      Kept past ⟨before, .applied walk disk report, after⟩ ∧ Accepts past walk before ∧
        before.tables.engrams.keys = ["a.md".toList] ∧ after.tables.engrams.keys = [] := by
  have evaluated : (TakeOver.twice "a.md".toList).any (fun walks =>
      (walks.1.2.1.tables.engrams.keys = ["a.md".toList] ∧ walks.1.2.1.hostMove.isSome = true ∧
        walks.1.2.2.onlyElsewhere = some ⟨some "alpha", 1, 0, 0, 0⟩) ∧
      walks.2.2.1.tables.engrams.keys = [] ∧
        Applying.neverEngram walks.2.1.reflection "a.md".toList = false) = true := by
    decide +kernel
  obtain ⟨⟨⟨scan, counted, report⟩, again, last, final⟩, done, values⟩ :=
    (Option.any_eq_true _ _).mp evaluated
  obtain ⟨⟨rows, standing, elsewhere⟩, empty, ordinary⟩ := of_decide_eq_true values
  dsimp only at rows standing elsewhere empty ordinary
  unfold TakeOver.twice at done
  simp only [Option.bind_eq_bind, Option.bind_eq_some_iff, Option.pure_def, Option.some.injEq,
    Prod.mk.injEq] at done
  obtain ⟨⟨_, _, _⟩, firstDone, ⟨_, _, _⟩, secondDone, ⟨rfl, rfl, rfl⟩, rfl, rfl, rfl⟩ := done
  obtain ⟨scanning, applying⟩ := TakeOver.steps_of_walked firstDone
  obtain ⟨rescanning, accepting⟩ := TakeOver.steps_of_walked secondDone
  have run := (((TakeOver.run "a.md".toList).step scanning).step applying).step rescanning
  have kept := host_move_keeps_rows (TakeOver.fresh _) run accepting
  refine ⟨_, _, _, _, _, _, kept, ?_, rows, empty⟩
  have unmarked {before after : DomainState} {action : Action}
      (noClaim : action.isClaimed = false) : ¬ Event.Marks ⟨before, action, after⟩ :=
    not_marks noClaim
  have marked : (TakeOver.claimed "a.md".toList).hostMove.isSome = true := by decide +kernel
  have counts : Event.Counts "beta"
      ⟨TakeOver.claimed "a.md".toList, .applied (TakeOver.walk false scan) TakeOver.disk report,
        counted⟩ :=
    ⟨_, _, _, rfl, rfl, marked, standing, _, elsewhere, by decide⟩
  have noRow (path : Path) : last.tables.engrams.lookup path = none := by
    rw [AList.lookup_eq_none, AList.mem_keys, empty]
    exact List.not_mem_nil
  obtain ⟨row, held⟩ : ∃ row, counted.tables.engrams.lookup "a.md".toList = some row := by
    apply Option.isSome_iff_exists.mp
    rw [AList.lookup_isSome, AList.mem_keys, rows]
    exact List.mem_cons_self
  obtain ⟨_, _, _, same, fate⟩ := kept.engrams _ row held (noRow _)
  obtain ⟨rfl, rfl, rfl⟩ := Action.applied.inj same
  rcases fate with ⟨target, permalink, -, stands⟩ | never | drops
  · exact absurd ((noRow target).symm.trans stands) (Option.some_ne_none _).symm
  · exact absurd (ordinary.symm.trans never) Bool.false_ne_true
  · refine (drops ?_).resolve_left ?_
    · intro _ walker named _
      obtain rfl : "beta" = walker := Option.some.inj named
      exact ⟨unmarked rfl, .inr ⟨unmarked rfl, .inl counts⟩⟩
    · intro unmoved
      rw [show counted.hostMove = none from unmoved] at standing
      cases standing

/-- A row under a reserved name is taken by a walk that did not see its file,
while the move stands and no walk of the new host counted anything. -/
theorem host_move_drops_reserved_row :
    ∃ start world next past walk disk report path row,
      World.Fresh start ∧ Run TakeOver.reader start past world ∧
      Step TakeOver.reader world (.applied walk disk report) next ∧
      world.state.tables.engrams.lookup path = some row ∧
      next.state.tables.engrams.lookup path = none ∧
      ¬ walk.Saw path ∧ ¬ RowRenamed walk next.state path row ∧
      ¬ MayDrop past walk world.state := by
  have evaluated : (TakeOver.walked false (TakeOver.claimed "log.md".toList)).any
      (fun done => done.2.1.tables.engrams.keys = []) = true := by decide +kernel
  have unseen : (survey TakeOver.disk TakeOver.layout).toOption.all
      (fun found => (found.current.lookup "log.md".toList).isNone) = true := by decide +kernel
  obtain ⟨⟨scan, next, report⟩, done, empty⟩ := (Option.any_eq_true _ _).mp evaluated
  obtain ⟨scanning, step⟩ := TakeOver.steps_of_walked done
  have absent (path : Path) : next.tables.engrams.lookup path = none := by
    rw [AList.lookup_eq_none, AList.mem_keys, of_decide_eq_true empty]
    exact List.not_mem_nil
  refine ⟨_, _, _, _, _, _, _, "log.md".toList, TakeOver.row, TakeOver.fresh _,
    (TakeOver.run _).step scanning, step, ?_, absent _, ?_, ?_, ?_⟩
  · change (TakeOver.claimed "log.md".toList).tables.engrams.lookup _ = _
    decide +kernel
  · rintro ⟨found, surveyed, saw⟩
    have surveyed : survey TakeOver.disk TakeOver.layout = .ok found := surveyed
    rw [surveyed] at unseen
    have none : (found.current.lookup "log.md".toList).isNone = true := unseen
    rw [Option.isNone_iff_eq_none.mp none] at saw
    cases saw
  · rintro ⟨target, permalink, -, stands⟩
    exact absurd ((absent target).symm.trans stands) (Option.some_ne_none _).symm
  · rintro (unmarked | ⟨accepts, -⟩)
    · have standing : (TakeOver.claimed "log.md".toList).hostMove.isSome = true := by
        decide +kernel
      rw [show (TakeOver.claimed "log.md".toList).hostMove = none from unmarked] at standing
      cases standing
    · cases accepts

end Crystalline.Sync
