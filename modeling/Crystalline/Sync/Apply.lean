import Crystalline.Sync.Scan
import Crystalline.Text.LineEndings

/-!
# Applying a scan

One transaction: the walker's claim and the host move are read, the engram rows
moved, deleted and rewritten under the guards of their stamps, the file tables
reconciled with what the walk saw, and the host move ended or kept.
-/

namespace Crystalline.Sync

open Text
open Remote (Path ReflectionMode isReservedPath isUnderReflections)

/-- The state the engram rows are applied in. -/
structure Applying where
  engrams : Engrams
  unseen : Nat
  report : SyncReport

/-- Whether a path's recorded stamp moved between the snapshot and the apply. -/
def stampMoved (live snapshot : Stamps) (path : Path) : Bool :=
  live.lookup path ≠ snapshot.lookup path

namespace Applying

def defer (applying : Applying) : Applying :=
  { applying with report := { applying.report with deferred := applying.report.deferred + 1 } }

def fail (applying : Applying) (path : Path) (failure : Failure) : Applying :=
  { applying with report :=
      { applying.report with failed := applying.report.failed ++ [(path, failure)] } }

/-- One move: a rename in place, unless either end was written since. -/
def move (slugify : Path → Text) (live snapshot : Stamps) (applying : Applying)
    (ends : Path × Path) : Except StoreError Applying :=
  if stampMoved live snapshot ends.1 || stampMoved live snapshot ends.2 then
    .ok applying.defer
  else do
    let engrams ← applying.engrams.rename slugify ends.1 ends.2
    return { applying with
      engrams := engrams
      report := { applying.report with moved := applying.report.moved + 1 } }

/-- Whether a path is never an engram, whatever stands on disk: a reserved
name, or a file of the Reflection in effect. -/
def neverEngram (reflection : ReflectionMode) (path : Path) : Bool :=
  isReservedPath path || (reflection = .effective && isUnderReflections path)

/-- One delete: put off when the row was written since or the file is back,
kept and counted while a host move is unresolved. -/
def delete (disk : Disk) (live snapshot : Stamps) (reflection : ReflectionMode)
    (keepUnseen : Bool) (applying : Applying) (path : Path) : Applying :=
  if stampMoved live snapshot path then applying.defer
  else if !neverEngram reflection path && disk.existsAt path then applying.defer
  else if keepUnseen && !neverEngram reflection path then
    { applying with unseen := applying.unseen + 1 }
  else
    { applying with
      engrams := applying.engrams.erase path
      report := { applying.report with deleted := applying.report.deleted + 1 } }

/-- One upsert of a parsed record. -/
def write (applying : Applying) (change : PendingChange) (row : EngramRow) : Applying :=
  match applying.engrams.upsert change.scanned.path row with
  | .error refused => applying.fail change.scanned.path (.store refused)
  | .ok engrams =>
      { applying with
        engrams := engrams
        report :=
          if change.previouslyIndexed then
            { applying.report with updated := applying.report.updated + 1 }
          else { applying.report with added := applying.report.added + 1 } }

/-- One arrival of a slab: the file is read again, parsed and written. -/
def parse (reader : Reader) (disk : Disk) (applying : Applying) (change : PendingChange) :
    Applying :=
  match disk.read change.scanned.path with
  | .error .notFound => applying.defer
  | .error refused =>
      let failed := applying.fail change.scanned.path (.io refused)
      { failed with report := { failed.report with unread := failed.report.unread + 1 } }
  | .ok bytes =>
      match fromUtf8 bytes with
      | none => applying.fail change.scanned.path .notUtf8
      | some text =>
          match reader.permalink (toLf text) change.scanned.path with
          | .error refusal => applying.fail change.scanned.path (.parse refusal)
          | .ok permalink =>
              applying.write change
                ⟨permalink,
                  ⟨change.scanned.mtime, change.scanned.size, reader.sha256 bytes⟩, toLf text⟩

/-- `parse_and_apply_slab`, after the guard that puts stale changes off. -/
def slab (reader : Reader) (disk : Disk) (orders : Orders) (live snapshot : Stamps)
    (applying : Applying) (changes : List PendingChange) : Applying :=
  let stale := changes.filter fun change => stampMoved live snapshot change.scanned.path
  let fresh := changes.filter fun change => !stampMoved live snapshot change.scanned.path
  let guarded := stale.foldl (fun applying _ => applying.defer) applying
  (arrange orders.parsed (fun change => change.scanned.path) fresh).foldl
    (parse reader disk) guarded

end Applying

/-- A list cut into slabs, with a bound on their number. -/
def slabsWithin {Item : Type*} (size : Nat) : Nat → List Item → List (List Item)
  | 0, _ => []
  | bound + 1, items =>
      if items.isEmpty then []
      else items.take size :: slabsWithin size bound (items.drop size)

def slabs {Item : Type*} (size : Nat) (items : List Item) : List (List Item) :=
  slabsWithin (max size 1) items.length items

/-- `apply_changes`. -/
def applyChanges (reader : Reader) (disk : Disk) (orders : Orders) (slabFiles : Nat)
    (keepUnseen : Bool) (scan : DomainScan) (engrams : Engrams) :
    Except StoreError Applying := do
  let live := engrams.fileStamps
  let moved ← scan.moves.foldlM (Applying.move reader.slugify live scan.snapshot)
    ⟨engrams, 0, scan.report⟩
  let deleted := (arrange orders.deleted id scan.deletes).foldl
    (Applying.delete disk live scan.snapshot scan.reflection keepUnseen) moved
  return (slabs slabFiles scan.changed).foldl
    (Applying.slab reader disk orders live scan.snapshot) deleted

/-- `rfc3339_from_mtime`: an instant outside the representable range falls back
to the epoch. -/
def rfc3339FromMtime (mtime : Int) : Int :=
  if -8334601228800 ≤ mtime ∧ mtime ≤ 8210266876799 then mtime else 0

/-- `FileRows`: what a file table keeps of a row for the stat prefilter, and how
a row is built from a file just read. -/
structure FileRows (Row : Type) where
  stamp : Row → Nat × Int
  build : Disk → FileCandidate → Int → Except IoError (Option Row)
  reportPath : Path → Path

/-- The attachment rows of the engrams or, below the Reflection's folder, of
its files. -/
def assetRows (reader : Reader) (reportPath : Path → Path) : FileRows AttachmentRow where
  stamp row := (row.size, row.modified)
  build disk candidate modified := do
    let bytes ← disk.read candidate.found
    if maxAttachmentBytes < bytes.length then return none
    return (attachmentMime (Remote.fileName candidate.path)).map fun mime =>
      ⟨reader.sha256 bytes, mime, bytes.length, modified⟩
  reportPath := reportPath

/-- `domain_rel`. -/
def domainRel (path : Path) : Path := "reflections/".toList ++ path

def reflectionRows (reader : Reader) : FileRows ReflectionRow where
  stamp row := (row.size, row.modified)
  build disk candidate modified := do
    let text ← disk.readText candidate.found
    let bytes := toUtf8 text
    return some ⟨reader.sha256 bytes, bytes.length, modified, text⟩
  reportPath := domainRel

/-- How much of a file table a walk saw. -/
inductive Completeness where
  | partly
  | complete
  | keepUnseen
  deriving DecidableEq, Repr

/-- `Completeness::of`. -/
def Completeness.of : (complete keepUnseen : Bool) → Completeness
  | false, _ => .partly
  | true, false => .complete
  | true, true => .keepUnseen

/-- `Reconciled`, with the table it leaves. -/
structure Reconciled (Row : Type) where
  rows : AList fun _ : Path => Row
  changed : Nat
  unseen : Nat
  report : SyncReport

namespace Reconciled

variable {Row : Type}

/-- One candidate: skipped when the recorded row still has its stat, else read
and written. -/
def take (table : FileRows Row) (disk : Disk) (force : Bool)
    (existing : AList fun _ : Path => Row) (out : Reconciled Row)
    (candidate : FileCandidate) : Reconciled Row :=
  let modified := rfc3339FromMtime candidate.mtime
  if !force && (existing.lookup candidate.path).any
      fun row => table.stamp row = (candidate.size, modified) then out
  else match table.build disk candidate modified with
    | .ok (some row) =>
        { out with rows := out.rows.insert candidate.path row, changed := out.changed + 1 }
    | .ok none => out
    | .error .notFound => out
    | .error refused =>
        { out with report := { out.report with
            failed := out.report.failed ++ [(table.reportPath candidate.path, .io refused)] } }

/-- One delete: it counts when there was a row. -/
def drop (out : Reconciled Row) (path : Path) : Reconciled Row :=
  if (out.rows.lookup path).isSome then
    { out with rows := out.rows.erase path, changed := out.changed + 1 }
  else out

end Reconciled

/-- The recorded paths no candidate of the walk is for. -/
def unseenRows {Row : Type} (existing : AList fun _ : Path => Row)
    (found : List FileCandidate) : List Path :=
  existing.keys.filter fun path => !(found.map FileCandidate.path).contains path

/-- `reconcile_rows`. -/
def reconcileRows {Row : Type} (table : FileRows Row) (disk : Disk)
    (existing : AList fun _ : Path => Row) (found : List FileCandidate) (deletes : List Path)
    (completeness : Completeness) (force : Bool) (report : SyncReport) : Reconciled Row :=
  let taken := found.foldl (Reconciled.take table disk force existing) ⟨existing, 0, 0, report⟩
  match completeness with
  | .complete => (unseenRows existing found).foldl Reconciled.drop taken
  | .keepUnseen => { taken with unseen := (unseenRows existing found).length }
  | .partly => deletes.foldl Reconciled.drop taken

/-- `HostMove`: the domain was taken over and this instance's disk may lack
files the previous host wrote. -/
structure HostMove where
  markedAt : Nat
  claimant : Option String
  walked : Bool
  onlyElsewhere : OnlyElsewhere
  deriving DecidableEq, Repr

/-- The text of `domain.host_move`: a mark this version wrote, or one it cannot
read. -/
inductive MoveText where
  | mark (move : HostMove)
  | unknown (text : String)
  deriving DecidableEq, Repr

/-- `parse_host_move`: a text that does not read as a mark counts as one with
nothing counted yet. -/
def parseHostMove : MoveText → HostMove
  | .mark move => move
  | .unknown _ => ⟨0, none, false, ⟨none, 0, 0, 0, 0⟩⟩

/-- The row of the host lock. -/
structure DomainHost where
  holder : String
  label : String
  token : String
  heartbeat : Nat
  deriving DecidableEq, Repr

/-- What the database keeps of one domain. -/
structure DomainState where
  tables : Tables
  lock : Option DomainHost
  lastHost : Option (String × String)
  hostMove : Option MoveText

/-- `swap_host_move`: a compare and a write of the stored text. -/
def DomainState.swapHostMove (state : DomainState) (expected next : Option MoveText) :
    Option DomainState :=
  if state.hostMove = expected then some { state with hostMove := next } else none

inductive ApplyError where
  | store (error : StoreError)
  | notHost (holder : Option String)
  | hostMoveChanged
  deriving DecidableEq, Repr

/-- The claim of this walk on a host move: it is the one who marked it, or
nobody is recorded. -/
def mayEnd (walker : Option String) (move : HostMove) : Bool :=
  move.claimant.isNone || move.claimant = walker

/-- Whether a walk was told to take the disk as it is, for a move an earlier
walk counted. -/
def accepts (scan : DomainScan) (move : Option HostMove) : Bool :=
  move.any fun marked => mayEnd scan.walker marked && scan.acceptDisk && marked.walked

/-- Whether the walk keeps the rows it did not see. -/
def keepsUnseen (scan : DomainScan) (move : Option HostMove) : Bool :=
  move.isSome && !accepts scan move

/-- The tables after an apply, with what the walk did not see and the report. -/
structure Applied where
  tables : Tables
  only : OnlyElsewhere
  report : SyncReport

/-- The rows of the four tables under one scan. -/
def applyRows (reader : Reader) (disk : Disk) (orders : Orders) (slabFiles : Nat)
    (keepUnseen : Bool) (scan : DomainScan) (tables : Tables) : Except StoreError Applied := do
  let engrams ← applyChanges reader disk orders slabFiles keepUnseen scan tables.engrams
  let attachments := reconcileRows (assetRows reader id) disk tables.attachments scan.assets
    scan.assetDeletes (.of scan.assetsComplete keepUnseen) false engrams.report
  let pages := reconcileRows (reflectionRows reader) disk tables.reflections scan.reflections
    scan.reflectionDeletes (.of scan.reflectionsComplete keepUnseen) scan.endsRebuild
    attachments.report
  let files := reconcileRows (assetRows reader domainRel) disk tables.reflectionAssets
    scan.reflectionAssets scan.reflectionAssetDeletes
    (.of scan.reflectionsComplete keepUnseen) false pages.report
  return {
    tables := ⟨engrams.engrams, attachments.rows, pages.rows, files.rows⟩
    only := ⟨none, engrams.unseen, attachments.unseen, pages.unseen, files.unseen⟩
    report := { files.report with
      reflectionsChanged := files.report.reflectionsChanged + pages.changed + files.changed } }

/-- Whether a walk ends the move it read. -/
def resolves (scan : DomainScan) (move : HostMove) (only : OnlyElsewhere) : Bool :=
  accepts scan (some move) ||
    (mayEnd scan.walker move && only.total = 0 && scan.reflectionsComplete)

/-- What a walk did not see, under the name of the host before. -/
def onlyOf (move : HostMove) (applied : Applied) : OnlyElsewhere :=
  { applied.only with previousHost := move.onlyElsewhere.previousHost }

/-- The move ends, or stays with what this walk did not see. -/
def nextMove (scan : DomainScan) (move : HostMove) (only : OnlyElsewhere) : Option MoveText :=
  if resolves scan move only then none
  else some (.mark { move with walked := true, onlyElsewhere := only })

/-- What the report says of the move. -/
def reportMove (scan : DomainScan) (move : HostMove) (only : OnlyElsewhere)
    (report : SyncReport) : SyncReport :=
  { report with
    onlyElsewhere := if !resolves scan move only && 0 < only.total then some only
      else report.onlyElsewhere
    hostMoveResolved := resolves scan move only }

/-- The end of an apply that read a move: only the claimant's walk writes it. -/
def endHostMove (scan : DomainScan) (readText : Option MoveText) (move : HostMove)
    (applied : Applied) (state : DomainState) : Except ApplyError (DomainState × SyncReport) :=
  let only := onlyOf move applied
  let report := reportMove scan move only applied.report
  if mayEnd scan.walker move then
    match state.swapHostMove readText (nextMove scan move only) with
    | some swapped => .ok (swapped, report)
    | none => .error .hostMoveChanged
  else .ok (state, report)

/-- A walk that read no move leaves the domain's row as it is. -/
def concludeMove (scan : DomainScan) (readText : Option MoveText) (move : Option HostMove)
    (applied : Applied) (state : DomainState) : Except ApplyError (DomainState × SyncReport) :=
  match move with
  | none => .ok (state, applied.report)
  | some move => endHostMove scan readText move applied state

/-- The walker check: a walk whose claim is gone writes nothing. -/
def lostHost (shares : Bool) (scan : DomainScan) (state : DomainState) : Bool :=
  shares && scan.walker.any fun walker => state.lock.map DomainHost.holder ≠ some walker

/-- The text of the move an apply reads: a complete walk's, on a shared
database. -/
def readText (shares : Bool) (scan : DomainScan) (state : DomainState) : Option MoveText :=
  if scan.assetsComplete && shares then state.hostMove else none

def readMove (shares : Bool) (scan : DomainScan) (state : DomainState) : Option HostMove :=
  (readText shares scan state).map parseHostMove

/-- `apply_scan_with_slab`. -/
def applyScan (reader : Reader) (shares : Bool) (disk : Disk) (orders : Orders)
    (slabFiles : Nat) (scan : DomainScan) (state : DomainState) :
    Except ApplyError (DomainState × SyncReport) :=
  if lostHost shares scan state then .error (.notHost (state.lock.map DomainHost.holder))
  else
    match applyRows reader disk orders slabFiles (keepsUnseen scan (readMove shares scan state))
      scan state.tables with
    | .error refused => .error (.store refused)
    | .ok applied =>
        concludeMove scan (readText shares scan state) (readMove shares scan state) applied
          { state with tables := applied.tables }

end Crystalline.Sync
