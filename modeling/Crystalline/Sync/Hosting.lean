import Crystalline.Sync.Apply

/-!
# Instances that host a domain

On a shared database the instances claim a domain's host lock, walk their own
disk and apply what they found.  A claim that moves the domain to another
instance marks a host move in its own transaction.
-/

namespace Crystalline.Sync

open Remote (ReflectionMode)

/-- One call of `claim_host_marking_moves`; `token` is the one the claim would
write. -/
structure Claim where
  claimer : String
  label : String
  now : Nat
  staleBefore : Nat
  takeOver : Bool
  token : String
  deriving DecidableEq, Repr

/-- `claim_domain_host`: one upsert of the lock row, and the row read back. -/
def claimDomainHost (claim : Claim) (lock : Option DomainHost) : DomainHost :=
  match lock with
  | none => ⟨claim.claimer, claim.label, claim.token, claim.now⟩
  | some held =>
      if held.holder = claim.claimer || claim.takeOver || held.heartbeat < claim.staleBefore then
        ⟨claim.claimer, claim.label, claim.token, claim.now⟩
      else held

namespace DomainState

/-- The holder of the lock, else the instance the domain row names as its last
host, with its label. -/
def previous (state : DomainState) : Option (String × String) :=
  (state.lock.map fun held => (held.holder, held.label)).or state.lastHost

/-- The instance a domain is at. -/
def host (state : DomainState) : Option String := state.previous.map Prod.fst

/-- The mark of a move to the claimer. -/
def markOf (state : DomainState) (claim : Claim) : HostMove :=
  ⟨claim.now, some claim.claimer, false, ⟨state.previous.map Prod.snd, 0, 0, 0, 0⟩⟩

/-- `claim_and_mark`. -/
def claimAndMark (state : DomainState) (claim : Claim) : DomainState :=
  let lock := claimDomainHost claim state.lock
  if lock.holder = claim.claimer then
    { state with
      lock := some lock
      hostMove :=
        if state.host ≠ some claim.claimer then some (.mark (state.markOf claim))
        else state.hostMove
      lastHost := some (claim.claimer, claim.label) }
  else { state with lock := some lock }

/-- `release_domain_host`: the row goes when it still has this claim's token. -/
def release (state : DomainState) (holder token : String) : DomainState :=
  if state.lock.any fun held => held.holder = holder && held.token = token then
    { state with lock := none }
  else state

/-- `hand_back_domain_host`: the token of the claim this one replaced. -/
def handBack (state : DomainState) (holder token released : String) : DomainState :=
  { state with lock := state.lock.map fun held =>
      if held.holder = holder && held.token = token then { held with token := released } else held }

/-- `renew_domain_host`: an empty label leaves the row its own. -/
def renew (state : DomainState) (holder label : String) (now : Nat) : DomainState :=
  { state with lock := state.lock.map fun held =>
      if held.holder = holder then
        { held with heartbeat := now, label := if label = "" then held.label else label }
      else held }

end DomainState

/-- A complete walk on its way to the apply: the disk it saw, and its scan. -/
structure Walk where
  layout : DomainLayout
  walked : Disk
  scan : DomainScan

/-- What one instance does next. -/
inductive Action where
  | claimed (claim : Claim)
  | released (holder token : String)
  | handedBack (holder token released : String)
  | renewed (holder label : String) (now : Nat)
  | scanned (walk : Walk)
  | applied (walk : Walk) (disk : Disk) (report : SyncReport)
  | refused (walk : Walk) (error : ApplyError)

/-- The database and the walks that wait for their apply. -/
structure World where
  state : DomainState
  waiting : List Walk

/-- One transaction of an instance, or a walk of its disk; the disk may be any
at every moment. -/
inductive Step (reader : Reader) : World → Action → World → Prop where
  | claim (claim : Claim) (world : World) :
      Step reader world (.claimed claim)
        { world with state := world.state.claimAndMark claim }
  | release (holder token : String) (world : World) :
      Step reader world (.released holder token)
        { world with state := world.state.release holder token }
  | handBack (holder token released : String) (world : World) :
      Step reader world (.handedBack holder token released)
        { world with state := world.state.handBack holder token released }
  | renew (holder label : String) (now : Nat) (world : World) :
      Step reader world (.renewed holder label now)
        { world with state := world.state.renew holder label now }
  /-- `scan_domain` over the stamps read just now, named by its walker and told
  or not to accept the disk. -/
  | scan (walker : String) (accept : Bool) (layout : DomainLayout) (walked hashed : Disk)
      (orders : Orders) (force : Bool) (world : World) {scan : DomainScan}
      (done : scanDomain reader layout walked hashed orders
        world.state.tables.engrams.fileStamps force = .ok scan) :
      Step reader world
        (.scanned ⟨layout, walked, { scan with acceptDisk := accept, walker := some walker }⟩)
        { world with waiting :=
            ⟨layout, walked, { scan with acceptDisk := accept, walker := some walker }⟩ ::
              world.waiting }
  | apply (walk : Walk) (before after : List Walk) (disk : Disk) (orders : Orders)
      (slabFiles : Nat) {state next : DomainState} {report : SyncReport}
      (done : applyScan reader true disk orders slabFiles walk.scan state = .ok (next, report)) :
      Step reader ⟨state, before ++ walk :: after⟩ (.applied walk disk report)
        ⟨next, before ++ after⟩
  | refuse (walk : Walk) (before after : List Walk) (disk : Disk) (orders : Orders)
      (slabFiles : Nat) {state : DomainState} {error : ApplyError}
      (failed : applyScan reader true disk orders slabFiles walk.scan state = .error error) :
      Step reader ⟨state, before ++ walk :: after⟩ (.refused walk error)
        ⟨state, before ++ after⟩

/-- One step of a run, with the database before and after it. -/
structure Event where
  before : DomainState
  action : Action
  after : DomainState

/-- A run and its history, the newest event first. -/
inductive Run (reader : Reader) : World → List Event → World → Prop where
  | start (world : World) : Run reader world [] world
  | step {start world next : World} {past : List Event} {action : Action} :
      Run reader start past world → Step reader world action next →
      Run reader start (⟨world.state, action, next.state⟩ :: past) next

/-- A domain nobody claimed yet, and no walk of it under way. -/
structure World.Fresh (world : World) : Prop where
  unlocked : world.state.lock = none
  unhosted : world.state.lastHost = none
  unmoved : world.state.hostMove = none
  idle : world.waiting = []

end Crystalline.Sync
