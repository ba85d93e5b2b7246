import Mathlib.Logic.Relation
import Mathlib.Tactic.Common

/-!
# Programs over an interface

A program computes by calling an interface and goes on with the answer.  What
the interface answers, and what happens beside the program, is a relation on
worlds; a run may be cut off before any call, as a process may end.
-/

namespace Crystalline.Programs

/-- A program: it returns a value, stops with an error, or makes one call and
goes on with its answer. -/
inductive Program (Call : Type) (Answer : Call → Type) (Error Value : Type) where
  | done (value : Value)
  | stop (error : Error)
  | call (request : Call) (next : Answer request → Program Call Answer Error Value)

/-- How a run ends. -/
inductive Ending (Error Value : Type) where
  | returned (value : Value)
  | failed (error : Error)
  | cut
  deriving DecidableEq

namespace Program

variable {Call : Type} {Answer : Call → Type} {Error Value Other Last : Type}

/-- Go on with the value a program returns. -/
def bind (next : Value → Program Call Answer Error Other) :
    Program Call Answer Error Value → Program Call Answer Error Other
  | done value => next value
  | stop error => stop error
  | call request rest => call request fun answer => (rest answer).bind next

instance : Monad (Program Call Answer Error) where
  pure := done
  bind program next := program.bind next

@[simp] theorem call_bind (request : Call) (rest : Answer request → Program Call Answer Error Value)
    (next : Value → Program Call Answer Error Other) :
    call request rest >>= next = call request fun answer => rest answer >>= next := rfl

theorem bind_assoc (program : Program Call Answer Error Value)
    (next : Value → Program Call Answer Error Other)
    (last : Other → Program Call Answer Error Last) :
    program >>= next >>= last = program >>= fun value => next value >>= last := by
  induction program with
  | done value => rfl
  | stop error => rfl
  | call request rest ih =>
      simp only [call_bind]
      congr
      funext answer
      exact ih answer

/-- One call, its answer returned. -/
def request (wanted : Call) : Program Call Answer Error (Answer wanted) :=
  call wanted done

/-- The value of a result, its error stopping the program. -/
def orStop : Except Error Value → Program Call Answer Error Value
  | .ok value => done value
  | .error error => stop error

/-- A loop over a list that carries a state. -/
def forEach {Item State : Type} (body : State → Item → Program Call Answer Error State) :
    State → List Item → Program Call Answer Error State
  | state, [] => done state
  | state, item :: items => body state item >>= fun next => forEach body next items

end Program

section Returns

variable {Call : Type} {Answer : Call → Type} {Error Value Other : Type}

/-- Whatever the calls answer, the program returns such a value, if any. -/
def Returns (post : Value → Prop) : Program Call Answer Error Value → Prop
  | .done value => post value
  | .stop _ => True
  | .call _ next => ∀ answer, Returns post (next answer)

variable {post : Value → Prop} {program : Program Call Answer Error Value}

theorem Returns.mono {weaker : Value → Prop} (returns : Returns post program)
    (implies : ∀ value, post value → weaker value) : Returns weaker program := by
  induction program with
  | done value => exact implies value returns
  | stop error => trivial
  | call request next ih => exact fun answer => ih answer (returns answer)

theorem Returns.bind {middle : Value → Prop} {post : Other → Prop}
    {next : Value → Program Call Answer Error Other} (first : Returns middle program)
    (second : ∀ value, middle value → Returns post (next value)) :
    Returns post (program >>= next) := by
  induction program with
  | done value => exact second value first
  | stop error => trivial
  | call request rest ih => exact fun answer => ih answer (first answer)

theorem returns_anything (program : Program Call Answer Error Value) :
    Returns (fun _ => True) program := by
  induction program with
  | done value => trivial
  | stop error => trivial
  | call request next ih => exact ih

end Returns

section Calls

variable {Call : Type} {Answer : Call → Type} {Error Value Other : Type} {allowed : Call → Prop}

/-- Every call the program can make is allowed. -/
def Calls (allowed : Call → Prop) : Program Call Answer Error Value → Prop
  | .done _ | .stop _ => True
  | .call request next => allowed request ∧ ∀ answer, Calls allowed (next answer)

variable {program : Program Call Answer Error Value}
  {next : Value → Program Call Answer Error Other}

theorem Calls.mono {also : Call → Prop} (calls : Calls allowed program)
    (implies : ∀ request, allowed request → also request) : Calls also program := by
  induction program with
  | done value => trivial
  | stop error => trivial
  | call request next ih =>
      exact ⟨implies request calls.1, fun answer => ih answer (calls.2 answer)⟩

theorem Calls.bind (first : Calls allowed program) (second : ∀ value, Calls allowed (next value)) :
    Calls allowed (program >>= next) := by
  induction program with
  | done value => exact second value
  | stop error => trivial
  | call request rest ih => exact ⟨first.1, fun answer => ih answer (first.2 answer)⟩

theorem Calls.bind_of_returns {middle : Value → Prop} (first : Calls allowed program)
    (returns : Returns middle program)
    (second : ∀ value, middle value → Calls allowed (next value)) :
    Calls allowed (program >>= next) := by
  induction program with
  | done value => exact second value returns
  | stop error => trivial
  | call request rest ih => exact ⟨first.1, fun answer => ih answer (first.2 answer) (returns answer)⟩

theorem calls_orStop (result : Except Error Value) :
    Calls allowed (Program.orStop result : Program Call Answer Error Value) := by
  cases result <;> trivial

theorem calls_forEach {Item State : Type} {body : State → Item → Program Call Answer Error State}
    (each : ∀ state item, Calls allowed (body state item)) (state : State) (items : List Item) :
    Calls allowed (Program.forEach body state items) := by
  induction items generalizing state with
  | nil => trivial
  | cons item items ih => exact (each state item).bind fun next => ih next

end Calls

section Runs

variable {World Call : Type} {Answer : Call → Type} {Error Value Other : Type}

/-- What an interface may answer in a world, and the world it leaves. -/
abbrev Answers (World Call : Type) (Answer : Call → Type) : Type :=
  World → (request : Call) → Answer request → World → Prop

/-- The runs of a program, with how they end and the world they leave. -/
inductive Runs (answers : Answers World Call Answer) :
    World → Program Call Answer Error Value → Ending Error Value → World → Prop where
  | done {world : World} {value : Value} :
      Runs answers world (.done value) (.returned value) world
  | stop {world : World} {error : Error} :
      Runs answers world (.stop error) (.failed error) world
  | cut {world : World} {program : Program Call Answer Error Value} :
      Runs answers world program .cut world
  | call {world middle last : World} {request : Call}
      {next : Answer request → Program Call Answer Error Value}
      {answer : Answer request} {ending : Ending Error Value}
      (answered : answers world request answer middle)
      (rest : Runs answers middle (next answer) ending last) :
      Runs answers world (.call request next) ending last

variable {answers : Answers World Call Answer} {program : Program Call Answer Error Value}
  {next : Value → Program Call Answer Error Other} {world : World}

theorem Runs.bind {value : Value} {ending : Ending Error Other} {world middle last : World}
    (first : Runs answers world program (.returned value) middle)
    (rest : Runs answers middle (next value) ending last) :
    Runs answers world (program >>= next) ending last := by
  generalize returned : Ending.returned value = reached at first
  induction first with
  | done =>
      cases returned
      exact rest
  | stop => cases returned
  | cut => cases returned
  | call answered _ ih => exact .call answered (ih rest returned)

theorem Returns.of_run {holds : Value → Prop} {value : Value} {world last : World}
    (returns : Returns holds program) (run : Runs answers world program (.returned value) last) :
    holds value := by
  generalize returned : Ending.returned value = reached at run
  induction run with
  | done =>
      cases returned
      exact returns
  | stop => cases returned
  | cut => cases returned
  | call _ _ ih => exact ih (returns _) returned

/-- Every run of the program from the world ends with `post`. -/
def Ensures (answers : Answers World Call Answer) (post : Ending Error Value → World → Prop) :
    Program Call Answer Error Value → World → Prop
  | .done value, world => post .cut world ∧ post (.returned value) world
  | .stop error, world => post .cut world ∧ post (.failed error) world
  | .call request next, world => post .cut world ∧
      ∀ answer middle, answers world request answer middle →
        Ensures answers post (next answer) middle

variable {answers : Answers World Call Answer}
  {post : Ending Error Value → World → Prop}

/-- The rules below are about all runs. -/
theorem ensures_iff_runs :
    Ensures answers post program world ↔
      ∀ ending last, Runs answers world program ending last → post ending last := by
  constructor
  · intro ensured ending last run
    induction run with
    | done => exact ensured.2
    | stop => exact ensured.2
    | @cut world program =>
        cases program with
        | done value => exact ensured.1
        | stop error => exact ensured.1
        | call request next => exact ensured.1
    | call answered _ ih => exact ih (ensured.2 _ _ answered)
  · intro all
    induction program generalizing world with
    | done value => exact ⟨all _ _ .cut, all _ _ .done⟩
    | stop error => exact ⟨all _ _ .cut, all _ _ .stop⟩
    | call request next ih =>
        refine ⟨all _ _ .cut, ?_⟩
        intro answer middle answered
        apply ih
        intro ending last run
        exact all _ _ (.call answered run)

theorem Ensures.of_run {world last : World} {ending : Ending Error Value}
    (ensured : Ensures answers post program world) (run : Runs answers world program ending last) :
    post ending last :=
  ensures_iff_runs.mp ensured ending last run

/-- A claim about the runs that return. -/
def OnReturn (holds : Value → World → Prop) : Ending Error Value → World → Prop
  | .returned value, world => holds value world
  | _, _ => True

theorem Returns.ensures {holds : Value → Prop} (returns : Returns holds program) :
    Ensures answers (OnReturn fun value _ => holds value) program world := by
  apply ensures_iff_runs.mpr
  intro ending last run
  cases ending with
  | returned value => exact returns.of_run run
  | failed error => trivial
  | cut => trivial

theorem Ensures.cut (ensured : Ensures answers post program world) : post .cut world :=
  ensured.of_run .cut

theorem Ensures.mono {weaker : Ending Error Value → World → Prop}
    (ensured : Ensures answers post program world)
    (implies : ∀ ending world, post ending world → weaker ending world) :
    Ensures answers weaker program world :=
  ensures_iff_runs.mpr fun _ _ run => implies _ _ (ensured.of_run run)

/-- A run that does not return may end with what holds. -/
def Unfinished (holds : World → Prop) (post : Ending Error Value → World → Prop) : Prop :=
  ∀ world, holds world → post .cut world ∧ ∀ error, post (.failed error) world

theorem Calls.keeps {allowed : Call → Prop} {invariant : World → Prop}
    (keeps : ∀ world request answer last, allowed request →
      answers world request answer last → invariant world → invariant last)
    (calls : Calls allowed program) (holds : invariant world) :
    Ensures answers (fun _ last => invariant last) program world := by
  induction program generalizing world with
  | done value => exact ⟨holds, holds⟩
  | stop error => exact ⟨holds, holds⟩
  | call request next ih =>
      refine ⟨holds, fun answer middle answered => ih answer (calls.2 answer) ?_⟩
      exact keeps world request answer middle calls.1 answered holds

/-- What the first of two programs has to end with for both to end with
`post`. -/
def andThen (answers : Answers World Call Answer) (next : Value → Program Call Answer Error Other)
    (post : Ending Error Other → World → Prop) : Ending Error Value → World → Prop
  | .returned value, world => Ensures answers post (next value) world
  | .failed error, world => post (.failed error) world
  | .cut, world => post .cut world

variable {post : Ending Error Other → World → Prop} {Item State : Type} {items : List Item}
  {state : State}

theorem ensures_bind :
    Ensures answers post (program >>= next) world ↔
      Ensures answers (andThen answers next post) program world := by
  induction program generalizing world with
  | done value =>
      constructor
      · intro ensured
        exact ⟨ensured.cut, ensured⟩
      · intro ensured
        exact ensured.2
  | stop error => exact Iff.rfl
  | call request rest ih =>
      constructor
      · intro ensured
        exact ⟨ensured.1, fun answer middle answered =>
          (ih answer).mp (ensured.2 _ _ answered)⟩
      · intro ensured
        exact ⟨ensured.1, fun answer middle answered =>
          (ih answer).mpr (ensured.2 _ _ answered)⟩

/-- The rule for a sequence: a middle assertion. -/
theorem Ensures.bind {middle : Ending Error Value → World → Prop}
    (first : Ensures answers middle program world)
    (returned : ∀ value last, middle (.returned value) last →
      Ensures answers post (next value) last)
    (failed : ∀ error last, middle (.failed error) last → post (.failed error) last)
    (cut : ∀ last, middle .cut last → post .cut last) :
    Ensures answers post (program >>= next) world := by
  apply ensures_bind.mpr
  apply first.mono
  intro ending last holds
  cases ending with
  | returned value => exact returned value last holds
  | failed error => exact failed error last holds
  | cut => exact cut last holds

/-- A first program of which only the returned value matters. -/
theorem Returns.ensures_bind {middle : Value → Prop} {holds : Other → World → Prop}
    (first : Returns middle program)
    (second : ∀ value last, middle value → Ensures answers (OnReturn holds) (next value) last) :
    Ensures answers (OnReturn holds) (program >>= next) world :=
  first.ensures.bind second (fun _ _ _ => trivial) fun _ _ => trivial

/-- The rule for a loop: an invariant of the items worked so far. -/
theorem ensures_forEach {body : State → Item → Program Call Answer Error State}
    {post : Ending Error State → World → Prop} (invariant : List Item → State → World → Prop)
    (step : ∀ worked item rest state world, items = worked ++ item :: rest →
      invariant worked state world →
      Ensures answers (fun ending last => match ending with
        | .returned next => invariant (worked ++ [item]) next last
        | .failed error => post (.failed error) last
        | .cut => post .cut last) (body state item) world)
    (finish : ∀ state world, invariant items state world →
      post .cut world ∧ post (.returned state) world) (start : invariant [] state world) :
    Ensures answers post (Program.forEach body state items) world := by
  suffices general : ∀ rest worked state world, items = worked ++ rest →
      invariant worked state world →
      Ensures answers post (Program.forEach body state rest) world by
    exact general items [] state world rfl start
  intro rest
  induction rest with
  | nil =>
      intro worked state world split holds
      rw [List.append_nil] at split
      subst split
      exact finish state world holds
  | cons item rest ih =>
      intro worked state world split holds
      apply (step worked item rest state world split holds).bind
      · intro next last kept
        exact ih (worked ++ [item]) next last (by simpa using split) kept
      · intro error last ended
        exact ended
      · intro last ended
        exact ended

/-- What a run that returns leaves, and what every other run leaves. -/
def Finishes (holds : World → Prop) (returned : Value → World → Prop) :
    Ending Error Value → World → Prop
  | .returned value, world => returned value world
  | .failed _, world | .cut, world => holds world

theorem unfinished_finishes (holds : World → Prop) (returned : Value → World → Prop) :
    Unfinished holds (Finishes holds returned : Ending Error Value → World → Prop) :=
  fun _ now => ⟨now, fun _ => now⟩

theorem Ensures.andThen {holds : World → Prop} {middle : Value → World → Prop}
    {returned : Other → World → Prop}
    (first : Ensures answers (Finishes holds middle) program world)
    (second : ∀ value last, middle value last →
      Ensures answers (Finishes holds returned) (next value) last) :
    Ensures answers (Finishes holds returned) (program >>= next) world :=
  first.bind second (fun _ _ kept => kept) fun _ kept => kept

/-- The rule for a loop every turn of which leaves `holds`. -/
theorem finishes_forEach {body : State → Item → Program Call Answer Error State}
    {holds : World → Prop} (invariant : List Item → State → World → Prop)
    (step : ∀ worked item rest state world, items = worked ++ item :: rest →
      invariant worked state world →
      Ensures answers (Finishes holds (invariant (worked ++ [item]))) (body state item) world)
    (safe : ∀ state world, invariant items state world → holds world)
    (start : invariant [] state world) :
    Ensures answers (Finishes holds (invariant items)) (Program.forEach body state items)
      world := by
  refine ensures_forEach invariant ?_ ?_ start
  · intro worked item rest state world split kept
    refine (step worked item rest state world split kept).mono ?_
    intro ending last finishes
    cases ending with
    | returned next => exact finishes
    | failed error => exact finishes
    | cut => exact finishes
  · intro state world kept
    exact ⟨safe state world kept, kept⟩

theorem Program.forEach_map {Item Source State : Type}
    (body : State → Item → Program Call Answer Error State) (name : Source → Item)
    (state : State) (items : List Source) :
    Program.forEach body state (items.map name) =
      Program.forEach (fun state item => body state (name item)) state items := by
  induction items generalizing state with
  | nil => rfl
  | cons item items ih =>
      change body state (name item) >>= _ = body state (name item) >>= _
      congr 1
      funext next
      exact ih next

end Runs

section Interference

variable {World Call : Type} {Answer : Call → Type}

/-- An interface where others may act before every answer. -/
def amid (others : World → World → Prop) (answers : Answers World Call Answer) :
    Answers World Call Answer :=
  fun world request answer last =>
    ∃ middle, Relation.ReflTransGen others world middle ∧ answers middle request answer last

end Interference

section Deterministic

variable {World Call : Type} {Answer : Call → Type} {Error Value : Type}

/-- A program run against an interface that has one answer to each call. -/
def Program.eval (serve : World → (request : Call) → Answer request × World) :
    Program Call Answer Error Value → World → Except Error Value × World
  | .done value, world => (.ok value, world)
  | .stop error, world => (.error error, world)
  | .call request next, world =>
      (next (serve world request).1).eval serve (serve world request).2

/-- How an evaluated program ends. -/
def Ending.ofExcept : Except Error Value → Ending Error Value
  | .ok value => .returned value
  | .error error => .failed error

variable {serve : World → (request : Call) → Answer request × World}

theorem runs_eval {answers : Answers World Call Answer} (allowed : ∀ world request,
      answers world request (serve world request).1 (serve world request).2)
    (program : Program Call Answer Error Value) (world : World) :
    Runs answers world program (.ofExcept (program.eval serve world).1)
      (program.eval serve world).2 := by
  induction program generalizing world with
  | done value => exact .done
  | stop error => exact .stop
  | call request next ih => exact .call (allowed world request) (ih _ _)

end Deterministic

end Crystalline.Programs
