import Crystalline.Programs.Program
import Crystalline.Remote.Records

/-!
# The calls a domain makes

Every operation on an origin is a program over the forge's calls and the few
writes it makes on this machine: the saved state and the working tree.
-/

namespace Crystalline.Remote

open Programs

structure TreeWrite where
  path : Text
  blobSha : Option Sha
  deriving DecidableEq, Repr

structure ProposalRequest where
  title : String
  body : String
  branch : String
  baseBranch : String
  deriving DecidableEq, Repr

structure ProposalHandle where
  number : Nat
  url : String
  deriving DecidableEq, Repr

inductive ProposalState where
  | opened
  | merged
  | declined
  deriving DecidableEq, Repr

structure OpenProposalRef where
  number : Nat
  branch : String
  headSha : Sha
  base : String
  headRepo : Option String
  deriving DecidableEq, Repr

structure StackMember where
  number : Nat
  state : String
  headSha : Sha
  deriving DecidableEq, Repr

structure StackInfo where
  number : Nat
  opened : Bool
  members : List StackMember
  deriving DecidableEq, Repr

/-- The calls of the provider, and the writes on this machine. -/
inductive Call where
  | blob (sha : Sha)
  | createBlob (content : List UInt8)
  | createTree (parentCommit : Sha) (writes : List TreeWrite)
  | createCommit (message : String) (tree : Sha) (parents : List Sha)
  | createBranch (name : String) (commit : Sha)
  | deleteBranch (name : String)
  | branchRef (name : String)
  | updateBranch (name : String) (commit : Sha) (force : Bool)
  | createProposal (wanted : ProposalRequest)
  | updateProposal (number : Nat) (title body base : Option String)
  | closeProposal (number : Nat)
  | proposalState (number : Nat)
  | listOpenProposals
  | listStacks (pullRequest : Option Nat)
  | createStack (pullRequests : List Nat)
  | extendStack (stack : Nat) (pullRequests : List Nat)
  | dissolveStack (stack : Nat)
  | save (state : OriginState)
  | writeFile (path : Path) (content : List UInt8)
  | removeFile (path : Path)

/-- What a call that succeeds brings. -/
abbrev Call.Result : Call → Type
  | blob _ => List UInt8
  | createBlob _ => Sha
  | createTree _ _ => Sha
  | createCommit _ _ _ => Sha
  | createProposal _ => ProposalHandle
  | branchRef _ => Option Sha
  | proposalState _ => ProposalState
  | listOpenProposals => List OpenProposalRef
  | listStacks _ => List StackInfo
  | createStack _ => StackInfo
  | extendStack _ _ => StackInfo
  | createBranch _ _ => Unit
  | deleteBranch _ => Unit
  | updateBranch _ _ _ => Unit
  | updateProposal _ _ _ _ => Unit
  | closeProposal _ => Unit
  | dissolveStack _ => Unit
  | save _ => Unit
  | writeFile _ _ => Unit
  | removeFile _ => Unit

abbrev Call.Answer (call : Call) : Type := Except RemoteError call.Result

/-- An operation on an origin. -/
abbrev Operation (Value : Type) : Type := Program Call Call.Answer RemoteError Value

/-- A call whose failure the operation looks at. -/
def attempt (call : Call) : Operation (Except RemoteError call.Result) :=
  Program.request call

/-- A call whose failure ends the operation. -/
def perform (call : Call) : Operation call.Result :=
  attempt call >>= Program.orStop

theorem calls_perform {allowed : Call → Prop} {request : Call} (isAllowed : allowed request) :
    Calls allowed (perform request) := by
  refine ⟨isAllowed, ?_⟩
  intro answer
  cases answer <;> trivial

/-- The rule for a call whose failure ends the operation. -/
theorem ensures_perform {World Value : Type} {answers : Answers World Call Call.Answer}
    {post : Ending RemoteError Value → World → Prop} {call : Call}
    {next : call.Result → Operation Value} {world : World} (cut : post .cut world)
    (fails : ∀ error last, answers world call (.error error) last →
      post .cut last ∧ post (.failed error) last)
    (goes : ∀ result last, answers world call (.ok result) last →
      Ensures answers post (next result) last) :
    Ensures answers post (perform call >>= next) world := by
  refine ⟨cut, ?_⟩
  intro answer last answered
  cases answer with
  | error error => exact fails error last answered
  | ok result => exact goes result last answered

end Crystalline.Remote
