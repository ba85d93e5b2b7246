import Crystalline.Programs.Program

/-!
# Moving a domain's state folder

The state folders of the domains stand in one parent under the domains' names.
The file system may fold names, so that several spellings answer for one folder;
the folder keeps the spelling it was made or renamed with.
-/

namespace Crystalline.Rename

open Programs

variable {Folder : Type} {fold : String → String}

/-- The folders of the parent, by the folded names they answer to. -/
@[ext] structure Parent (fold : String → String) (Folder : Type) where
  slot : String → Option (String × Folder)
  spelled : ∀ key name folder, slot key = some (name, folder) → fold name = key

namespace Parent

/-- The folder that answers to a name, with its own spelling. -/
def answering (parent : Parent fold Folder) (name : String) : Option (String × Folder) :=
  parent.slot (fold name)

/-- The folder listed under exactly this name. -/
def folder (parent : Parent fold Folder) (name : String) : Option Folder :=
  ((parent.answering name).filter fun entry => entry.1 = name).map Prod.snd

/-- `entry_names` and `has`: the exact names. -/
def has (parent : Parent fold Folder) (name : String) : Bool := (parent.folder name).isSome

/-- A folder has the name or answers to it. -/
def taken (parent : Parent fold Folder) (name : String) : Bool := (parent.answering name).isSome

/-- The parent with the folder of one name under another. -/
def moved (parent : Parent fold Folder) (source target : String) (content : Folder) :
    Parent fold Folder where
  slot key :=
    if key = fold target then some (target, content)
    else if key = fold source then none
    else parent.slot key
  spelled key name folder holds := by
    split at holds
    next same => rw [same, ← (Prod.mk.inj (Option.some.inj holds)).1]
    next =>
      split at holds
      · cases holds
      · exact parent.spelled key name folder holds

/-- `rename` of the file system: an empty folder in the way is replaced. -/
def rename (isEmpty : Folder → Bool) (parent : Parent fold Folder) (source target : String) :
    Option (Parent fold Folder) :=
  match parent.answering source with
  | none => none
  | some (_, content) =>
      if fold source = fold target || (parent.answering target).all fun entry => isEmpty entry.2
      then some (parent.moved source target content)
      else none

end Parent

inductive MoveError where
  | io
  | alreadyExists (text : String)
  deriving DecidableEq

/-- What the move asks of the file system. -/
inductive DirCall where
  | entryNames
  | sameDir (left right : String)
  | symlinkMetadata (name : String)
  | rename (source target : String)

def DirCall.Answer : DirCall → Type
  | .entryNames => Except MoveError (String → Bool)
  | .sameDir _ _ | .symlinkMetadata _ => Bool
  | .rename _ _ => Except MoveError Unit

/-- The file system: a rename happens whole or not at all. -/
def serves (isEmpty : Folder → Bool) (mayFail : Prop) :
    Answers (Parent fold Folder) DirCall DirCall.Answer
  | parent, .entryNames, answer, next =>
      next = parent ∧ (answer = .ok parent.has ∨ mayFail ∧ answer = .error .io)
  | parent, .sameDir left right, answer, next =>
      next = parent ∧ answer = ((parent.answering left).isSome && fold left = fold right)
  | parent, .symlinkMetadata name, answer, next =>
      next = parent ∧ answer = (parent.answering name).isSome
  | parent, .rename source target, answer, next =>
      (answer = .ok () ∧ parent.rename isEmpty source target = some next) ∨
        (answer = .error .io ∧ next = parent ∧
          (mayFail ∨ parent.rename isEmpty source target = none))

abbrev Moving (Value : Type) : Type := Program DirCall DirCall.Answer MoveError Value

/-- `entry_names`. -/
def entryNames : Moving (String → Bool) := .call .entryNames .orStop

/-- `std::fs::rename`. -/
def renameDir (source target : String) : Moving Unit := .call (.rename source target) .orStop

/-- `same_dir`. -/
def sameDir (left right : String) : Moving Bool := .call (.sameDir left right) .done

def symlinkMetadata (name : String) : Moving Bool := .call (.symlinkMetadata name) .done

/-- The temporary sibling of a folder. -/
def stagedName (old : String) : String := "." ++ old ++ ".renaming"

/-- The error for two folders that would have to be merged. -/
def bothError (parentText first second : String) : MoveError :=
  .alreadyExists ("both " ++ first ++ " and " ++ second ++ " exist under " ++ parentText ++
    "; move the files by hand and rerun")

section Move

variable (lower : String → String) (parentText old new : String) (has : String → Bool)

/-- Whether old and new are two spellings of one folder. -/
def sameFolder : Moving Bool :=
  if lower old = lower new || (!has old && has (stagedName old)) then .done true
  else if has old && !has new then sameDir old new
  else .done false

/-- The first half of a move through the temporary name: whether a folder has it. -/
def stageDir : Moving Bool :=
  match has old, has (stagedName old) with
  | true, true => .stop (bothError parentText old (stagedName old))
  | true, false =>
      if has new then .stop (bothError parentText old new)
      else renameDir old (stagedName old) >>= fun _ => .done true
  | false, staged => .done staged

/-- Whether a folder has the new name or answers to it. -/
def newTaken : Moving Bool :=
  if has new then .done true else symlinkMetadata new

/-- The second half. -/
def finishStaged : Moving Unit :=
  newTaken new has >>= fun taken =>
    if taken then .stop (bothError parentText old new) else renameDir (stagedName old) new

/-- A move to a name of another folder. -/
def moveOver : Moving Unit :=
  newTaken new has >>= fun taken =>
    match has old, taken with
    | true, true => .stop (bothError parentText old new)
    | true, false => renameDir old new
    | false, _ => .done ()

/-- `move_state_dir`. -/
def moveStateDir : Moving Unit :=
  if old = new then .done ()
  else
    entryNames >>= fun has =>
      sameFolder lower old new has >>= fun same =>
        if same then
          stageDir parentText old new has >>= fun staged =>
            if staged then finishStaged parentText old new has else .done ()
        else moveOver parentText old new has

end Move

/-- What a move is about to do. -/
inductive MovePlan where
  | nothing
  | refused
  | plain
  | throughStaged
  | finishStaged
  deriving DecidableEq

section Plan

variable (lower : String → String) (parent : Parent fold Folder) (old new : String)

/-- The two names are spellings of one folder. -/
def Parent.oneFolder : Bool :=
  lower old = lower new || (!parent.has old && parent.has (stagedName old)) ||
    (parent.has old && !parent.has new && fold old = fold new)

def Parent.plan : MovePlan :=
  if old = new then .nothing
  else if parent.oneFolder lower old new then
    if parent.has old then
      if parent.has (stagedName old) || parent.has new then .refused else .throughStaged
    else if parent.has (stagedName old) then
      if parent.taken new then .refused else .finishStaged
    else .nothing
  else if parent.has old then
    if parent.taken new then .refused else .plain
  else .nothing

end Plan

section Slots

variable {isEmpty : Folder → Bool} {parent : Parent fold Folder} {source target name : String}
  {content : Folder}

theorem Parent.answering_of_folder (held : parent.folder name = some content) :
    parent.answering name = some (name, content) := by
  cases found : parent.answering name with
  | none => simp [Parent.folder, found] at held
  | some entry =>
      obtain ⟨spelling, inside⟩ := entry
      simp only [Parent.folder, found, Option.filter_some] at held
      split at held
      next same =>
        rw [← of_decide_eq_true same, ← Option.some.inj held]
      next => cases held

section

variable (found : parent.answering name = some (source, content))
include found

theorem Parent.folder_of_answering :
    parent.folder source = some content ∧ fold source = fold name := by
  have same := parent.spelled _ _ _ found
  refine ⟨?_, same⟩
  have answers : parent.answering source = some (source, content) := by
    rw [Parent.answering, same]
    exact found
  simp [Parent.folder, answers]

theorem Parent.folder_eq_none_of_answering (other : source ≠ name) : parent.folder name = none := by
  simp [Parent.folder, found, other]

end

theorem Parent.folder_of_not_taken (free : parent.taken name = false) :
    parent.folder name = none := by
  have nothing : parent.answering name = none := by simpa [Parent.taken] using free
  simp [Parent.folder, nothing]

theorem Parent.taken_of_has (held : parent.has name = true) :
    parent.taken name = true := by
  obtain ⟨content, found⟩ := Option.isSome_iff_exists.mp held
  rw [Parent.taken, Parent.answering_of_folder found]
  rfl

theorem Parent.answering_moved : (parent.moved source target content).answering name =
    if fold name = fold target then some (target, content)
    else if fold name = fold source then none else parent.answering name := rfl

@[simp] theorem Parent.folder_moved_target :
    (parent.moved source target content).folder target = some content := by
  simp [Parent.folder, Parent.answering_moved]

theorem Parent.folder_moved_of_ne (other : name ≠ target) :
    (parent.moved source target content).folder name =
      if fold name = fold target ∨ fold name = fold source then none else parent.folder name := by
  rw [Parent.folder, Parent.answering_moved]
  by_cases ofTarget : fold name = fold target
  · rw [if_pos ofTarget, if_pos (.inl ofTarget)]
    simp [Ne.symm other]
  · by_cases ofSource : fold name = fold source
    · rw [if_neg ofTarget, if_pos ofSource, if_pos (.inr ofSource)]
      rfl
    · rw [if_neg ofTarget, if_neg ofSource, if_neg (by simp [ofTarget, ofSource])]
      rfl

/-- A rename onto a name that nothing else answers to. -/
theorem Parent.folder_moved (held : parent.folder source = some content)
    (free : parent.taken target = false ∨ fold source = fold target) :
    (parent.moved source target content).folder name =
      if name = target then some content else if name = source then none
      else parent.folder name := by
  by_cases isTarget : name = target
  · rw [if_pos isTarget, isTarget, Parent.folder_moved_target]
  rw [if_neg isTarget, Parent.folder_moved_of_ne isTarget]
  by_cases isSource : name = source
  · rw [if_pos isSource, if_pos (.inr (by rw [isSource]))]
  rw [if_neg isSource]
  -- The source is the one spelling of its folded name.
  have ofSource (same : fold name = fold source) : parent.folder name = none := by
    have spelled : parent.answering name = some (source, content) := by
      rw [Parent.answering, same]
      exact Parent.answering_of_folder held
    exact Parent.folder_eq_none_of_answering spelled (Ne.symm isSource)
  split
  next folded =>
    rcases folded with ofTarget | same
    · rcases free with free | same
      · apply (Parent.folder_of_not_taken _).symm
        rw [Parent.taken, Parent.answering, ofTarget]
        exact free
      · exact (ofSource (ofTarget.trans same.symm)).symm
    · exact (ofSource same).symm
  next => rfl

theorem Parent.rename_eq_some {next : Parent fold Folder} (held : parent.folder source = some content)
    (done : parent.rename isEmpty source target = some next) :
    next = parent.moved source target content ∧
      (fold source = fold target ∨ ∀ entry, parent.answering target = some entry →
        isEmpty entry.2 = true) := by
  simp only [Parent.rename, Parent.answering_of_folder held] at done
  split at done
  next allowed =>
    refine ⟨(Option.some.inj done).symm, ?_⟩
    rcases Bool.or_eq_true _ _ |>.mp allowed with same | empty
    · exact .inl (of_decide_eq_true same)
    · refine .inr fun entry found => ?_
      rw [found] at empty
      exact empty
  next => cases done

theorem Parent.rename_of_not_taken (held : parent.folder source = some content)
    (free : parent.taken target = false) :
    parent.rename isEmpty source target = some (parent.moved source target content) := by
  have nothing : parent.answering target = none := by simpa [Parent.taken] using free
  simp [Parent.rename, Parent.answering_of_folder held, nothing]

end Slots

section Runs

variable {isEmpty : Folder → Bool} {mayFail : Prop} {lower : String → String}
  {parentText old new : String} {start parent : Parent fold Folder} {has : String → Bool}
  {Value : Type} {post : Ending MoveError Value → Parent fold Folder → Prop}

theorem ensures_entryNames {next : (String → Bool) → Moving Value} (cut : post .cut parent)
    (failed : mayFail → post (.failed .io) parent)
    (rest : Ensures (serves isEmpty mayFail) post (next parent.has) parent) :
    Ensures (serves isEmpty mayFail) post (entryNames >>= next) parent := by
  refine ⟨cut, ?_⟩
  rintro answer middle ⟨rfl, rfl | ⟨allowed, rfl⟩⟩
  · exact rest
  · exact ⟨cut, failed allowed⟩

variable {next : Bool → Moving Value}

theorem ensures_sameFolder (cut : post .cut parent)
    (rest : Ensures (serves isEmpty mayFail) post (next (parent.oneFolder lower old new)) parent) :
    Ensures (serves isEmpty mayFail) post (sameFolder lower old new parent.has >>= next) parent := by
  rw [sameFolder]
  split
  next known =>
    rw [Parent.oneFolder, known, Bool.true_or] at rest
    exact rest
  next unknown =>
    rw [Parent.oneFolder, Bool.eq_false_iff.mpr unknown, Bool.false_or] at rest
    split
    next listed =>
      refine ⟨cut, ?_⟩
      rintro answer middle ⟨rfl, rfl⟩
      rw [listed, Bool.true_and] at rest
      have answers := Parent.taken_of_has (Bool.and_eq_true _ _ |>.mp listed).1
      rw [Parent.taken] at answers
      rw [answers, Bool.true_and]
      exact rest
    next unlisted =>
      rw [Bool.eq_false_iff.mpr unlisted, Bool.false_and] at rest
      exact rest

theorem ensures_newTaken (cut : post .cut parent)
    (listed : has new = true → parent.taken new = true)
    (rest : Ensures (serves isEmpty mayFail) post (next (parent.taken new)) parent) :
    Ensures (serves isEmpty mayFail) post (newTaken new has >>= next) parent := by
  rw [newTaken]
  split
  next has =>
    rw [listed has] at rest
    exact rest
  next =>
    refine ⟨cut, ?_⟩
    rintro answer middle ⟨rfl, rfl⟩
    exact rest

variable {source target : String} {content : Folder}

theorem ensures_renameDir {post : Ending MoveError Unit → Parent fold Folder → Prop}
    (cut : post .cut parent)
    (failed : mayFail ∨ parent.rename isEmpty source target = none → post (.failed .io) parent)
    (done : ∀ next, parent.rename isEmpty source target = some next →
      post .cut next ∧ post (.returned ()) next) :
    Ensures (serves isEmpty mayFail) post (renameDir source target) parent := by
  refine ⟨cut, ?_⟩
  rintro answer middle (⟨rfl, renamed⟩ | ⟨rfl, rfl, refused⟩)
  · exact done middle renamed
  · exact ⟨cut, failed refused⟩

theorem of_ensures_sameFolder (ensured : Ensures (serves isEmpty mayFail) post
      (sameFolder lower old new parent.has >>= next) parent) :
    Ensures (serves isEmpty mayFail) post (next (parent.oneFolder lower old new)) parent := by
  rw [sameFolder] at ensured
  split at ensured
  next known =>
    rw [Parent.oneFolder, known, Bool.true_or]
    exact ensured
  next unknown =>
    rw [Parent.oneFolder, Bool.eq_false_iff.mpr unknown, Bool.false_or]
    split at ensured
    next listed =>
      have answers := Parent.taken_of_has (Bool.and_eq_true _ _ |>.mp listed).1
      rw [Parent.taken] at answers
      have rest := ensured.2 _ parent ⟨rfl, rfl⟩
      rw [answers, Bool.true_and] at rest
      rw [listed, Bool.true_and]
      exact rest
    next unlisted =>
      rw [Bool.eq_false_iff.mpr unlisted, Bool.false_and]
      exact ensured

/-- How a run of the move can end, by what it was about to do. -/
inductive MoveEnds (isEmpty : Folder → Bool) (mayFail : Prop) (lower : String → String)
    (start : Parent fold Folder) (old new : String) :
    Ending MoveError Unit → Parent fold Folder → Prop where
  | cut : MoveEnds isEmpty mayFail lower start old new .cut start
  | failed (error : MoveError)
      (why : mayFail ∨ start.plan lower old new = .refused ∨
        (start.plan lower old new = .throughStaged ∧
          start.rename isEmpty old (stagedName old) = none)) :
      MoveEnds isEmpty mayFail lower start old new (.failed error) start
  | nothing (plan : start.plan lower old new = .nothing) :
      MoveEnds isEmpty mayFail lower start old new (.returned ()) start
  | plain {content : Folder} {ending : Ending MoveError Unit}
      (plan : start.plan lower old new = .plain) (held : start.folder old = some content)
      (ends : ending = .cut ∨ ending = .returned ()) :
      MoveEnds isEmpty mayFail lower start old new ending (start.moved old new content)
  | staged {content : Folder} {ending : Ending MoveError Unit}
      (plan : start.plan lower old new = .throughStaged) (held : start.folder old = some content)
      (renamed : start.rename isEmpty old (stagedName old) =
        some (start.moved old (stagedName old) content))
      (ends : ending = .cut ∨ (mayFail ∨
        (start.moved old (stagedName old) content).taken new = true) ∧
          ∃ error, ending = .failed error) :
      MoveEnds isEmpty mayFail lower start old new ending
        (start.moved old (stagedName old) content)
  | throughStaged {content : Folder} {ending : Ending MoveError Unit}
      (plan : start.plan lower old new = .throughStaged) (held : start.folder old = some content)
      (renamed : start.rename isEmpty old (stagedName old) =
        some (start.moved old (stagedName old) content))
      (free : (start.moved old (stagedName old) content).taken new = false)
      (ends : ending = .cut ∨ ending = .returned ()) :
      MoveEnds isEmpty mayFail lower start old new ending
        ((start.moved old (stagedName old) content).moved (stagedName old) new content)
  | finishStaged {content : Folder} {ending : Ending MoveError Unit}
      (plan : start.plan lower old new = .finishStaged)
      (held : start.folder (stagedName old) = some content)
      (ends : ending = .cut ∨ ending = .returned ()) :
      MoveEnds isEmpty mayFail lower start old new ending
        (start.moved (stagedName old) new content)

theorem ensures_renameDir_free {post : Ending MoveError Unit → Parent fold Folder → Prop}
    (held : parent.folder source = some content) (free : parent.taken target = false)
    (cut : post .cut parent) (failed : mayFail → post (.failed .io) parent)
    (done : ∀ ending, ending = .cut ∨ ending = .returned () →
      post ending (parent.moved source target content)) :
    Ensures (serves isEmpty mayFail) post (renameDir source target) parent := by
  have renamed : parent.rename isEmpty source target =
      some (parent.moved source target content) := Parent.rename_of_not_taken held free
  apply ensures_renameDir cut
  · rintro (allowed | refused)
    · exact failed allowed
    · rw [renamed] at refused
      cases refused
  · intro next moved
    obtain rfl := Option.some.inj (renamed.symm.trans moved)
    exact ⟨done _ (.inl rfl), done _ (.inr rfl)⟩

theorem ensures_moveOver (other : old ≠ new) (apart : start.oneFolder lower old new = false) :
    Ensures (serves isEmpty mayFail) (MoveEnds isEmpty mayFail lower start old new)
      (moveOver parentText old new start.has) start := by
  rw [moveOver]
  apply ensures_newTaken .cut Parent.taken_of_has
  cases listed : start.has old with
  | false => exact ⟨.cut, .nothing (by simp [Parent.plan, other, apart, listed])⟩
  | true =>
      obtain ⟨content, held⟩ := Option.isSome_iff_exists.mp listed
      cases taken : start.taken new with
      | true =>
          exact ⟨.cut, .failed _ (.inr (.inl (by simp [Parent.plan, other, apart, listed, taken])))⟩
      | false =>
          have plan : start.plan lower old new = .plain := by
            simp [Parent.plan, other, apart, listed, taken]
          exact ensures_renameDir_free held taken .cut (fun allowed => .failed _ (.inl allowed))
            fun ending ends => .plain plan held ends

/-- The second half of a move, from where the folder already has the temporary name. -/
theorem ensures_finishStaged {post : Ending MoveError Unit → Parent fold Folder → Prop}
    (held : parent.folder (stagedName old) = some content)
    (listed : has new = true → parent.taken new = true) (cut : post .cut parent)
    (failed : ∀ error, mayFail ∨ parent.taken new = true → post (.failed error) parent)
    (done : parent.taken new = false → ∀ ending, ending = .cut ∨ ending = .returned () →
      post ending (parent.moved (stagedName old) new content)) :
    Ensures (serves isEmpty mayFail) post (finishStaged parentText old new has) parent := by
  rw [finishStaged]
  apply ensures_newTaken cut listed
  cases taken : parent.taken new with
  | true => exact ⟨cut, failed _ (.inr taken)⟩
  | false =>
      exact ensures_renameDir_free held taken cut (fun allowed => failed _ (.inl allowed))
        (done taken)

theorem ensures_moveStateDir :
    Ensures (serves isEmpty mayFail) (MoveEnds isEmpty mayFail lower start old new)
      (moveStateDir lower parentText old new) start := by
  rw [moveStateDir]
  split
  next same => exact ⟨.cut, .nothing (by rw [Parent.plan, if_pos same])⟩
  next other =>
  apply ensures_entryNames .cut fun allowed => .failed _ (.inl allowed)
  apply ensures_sameFolder .cut
  cases one : start.oneFolder lower old new with
  | false => exact ensures_moveOver other one
  | true =>
      rw [if_pos rfl, stageDir]
      cases listed : start.has old with
      | false =>
          cases leftover : start.has (stagedName old) with
          | false => exact ⟨.cut, .nothing (by simp [Parent.plan, other, one, listed, leftover])⟩
          | true =>
              obtain ⟨content, held⟩ := Option.isSome_iff_exists.mp leftover
              apply ensures_finishStaged held Parent.taken_of_has .cut
              · rintro error (allowed | taken)
                · exact .failed _ (.inl allowed)
                · exact .failed _ (.inr (.inl (by
                    simp [Parent.plan, other, one, listed, leftover, taken])))
              · intro free ending ends
                exact .finishStaged (by simp [Parent.plan, other, one, listed, leftover, free])
                  held ends
      | true =>
          cases leftover : start.has (stagedName old) with
          | true =>
              exact ⟨.cut, .failed _ (.inr (.inl (by
                simp [Parent.plan, other, one, listed, leftover])))⟩
          | false =>
              cases present : start.has new with
              | true =>
                  exact ⟨.cut, .failed _ (.inr (.inl (by
                    simp [Parent.plan, other, one, listed, leftover, present])))⟩
              | false =>
                  obtain ⟨content, held⟩ := Option.isSome_iff_exists.mp listed
                  have plan : start.plan lower old new = .throughStaged := by
                    simp [Parent.plan, other, one, listed, leftover, present]
                  apply ensures_bind.mpr
                  apply ensures_bind.mpr
                  apply ensures_renameDir .cut
                  · rintro (allowed | refused)
                    · exact .failed _ (.inl allowed)
                    · exact .failed _ (.inr (.inr ⟨plan, refused⟩))
                  · intro next renamed
                    obtain ⟨rfl, -⟩ := Parent.rename_eq_some held renamed
                    refine ⟨.staged plan held renamed (.inl rfl), .staged plan held renamed (.inl rfl), ?_⟩
                    apply ensures_finishStaged Parent.folder_moved_target
                      (fun listed => by rw [present] at listed; cases listed)
                      (.staged plan held renamed (.inl rfl))
                    · intro error why
                      exact .staged plan held renamed (.inr ⟨why, error, rfl⟩)
                    · intro free ending ends
                      exact .throughStaged plan held renamed free ends

end Runs

/-- The folder of one name is under another, and everything else is as it was. -/
structure Moved (start last : Parent fold Folder) (source target : String) : Prop where
  free : start.folder target = none
  there : ∃ content, start.folder source = some content ∧ last.folder target = some content
  gone : last.folder source = none
  rest : ∀ name, name ≠ source → name ≠ target → last.folder name = start.folder name

/-- What a move leaves, by how it ends. -/
def AllOrNothing (start : Parent fold Folder) (old new : String) :
    Ending MoveError Unit → Parent fold Folder → Prop
  | .returned _, last =>
      (last = start ∧
        (old = new ∨ start.folder old = none ∧ start.folder (stagedName old) = none)) ∨
      Moved start last old new ∨
      (start.folder old = none ∧ Moved start last (stagedName old) new)
  | .failed _, last => last = start ∨ Moved start last old (stagedName old)
  | .cut, last =>
      last = start ∨ Moved start last old (stagedName old) ∨ Moved start last old new ∨
      (start.folder old = none ∧ Moved start last (stagedName old) new)

/-- The move of a state folder is all or nothing and can be run again. -/
structure MoveSound (isEmpty : Folder → Bool) (lower : String → String) (parentText : String)
    (start : Parent fold Folder) (old new : String) : Prop where
  ends : ∀ ending last,
    Runs (serves isEmpty True) start (moveStateDir lower parentText old new) ending last →
    AllOrNothing start old new ending last
  /-- After a crash of a move that can be completed, a run whose renames do not
  fail completes it. -/
  resumed : ∀ done middle ending last,
    Runs (serves isEmpty True) start (moveStateDir lower parentText old new) (.returned ()) done →
    Runs (serves isEmpty True) start (moveStateDir lower parentText old new) .cut middle →
    Runs (serves isEmpty False) middle (moveStateDir lower parentText old new) ending last →
    ending ≠ .cut → last = done ∧ (middle = done ∨ ending = .returned ())
  repeated : ∀ done ending last,
    Runs (serves isEmpty True) start (moveStateDir lower parentText old new) (.returned ()) done →
    Runs (serves isEmpty True) done (moveStateDir lower parentText old new) ending last →
    last = done

/-- No empty folder of another spelling answers to the temporary name when the
move is about to use it. -/
def SparesStaged (isEmpty : Folder → Bool) (lower : String → String) (start : Parent fold Folder)
    (old new : String) : Prop :=
  old ≠ new → (lower old = lower new ∨ fold old = fold new) → start.has old = true →
    start.has (stagedName old) = false → start.has new = false →
    ∀ name content, start.folder name = some content → name ≠ old →
      fold name = fold (stagedName old) → isEmpty content = false

section Sound

variable {isEmpty : Folder → Bool} {mayFail : Prop} {lower : String → String}
  {parentText old new source target : String} {start middle done last : Parent fold Folder}
  {content : Folder} {ending : Ending MoveError Unit}

theorem Parent.plan_eq_throughStaged : start.plan lower old new = .throughStaged ↔
    old ≠ new ∧ (lower old = lower new ∨ fold old = fold new) ∧ start.has old = true ∧
      start.has (stagedName old) = false ∧ start.has new = false := by
  rw [Parent.plan, Parent.oneFolder]
  by_cases same : old = new
  · simp [same]
  cases start.has old <;> cases start.has (stagedName old) <;> cases start.has new <;>
    cases start.taken new <;> by_cases lowered : lower old = lower new <;>
    by_cases folded : fold old = fold new <;> simp [same, lowered, folded]

theorem Parent.plan_eq_finishStaged : start.plan lower old new = .finishStaged ↔
    old ≠ new ∧ start.has old = false ∧ start.has (stagedName old) = true ∧
      start.taken new = false := by
  rw [Parent.plan, Parent.oneFolder]
  by_cases same : old = new
  · simp [same]
  cases start.has old <;> cases start.has (stagedName old) <;> cases start.has new <;>
    cases start.taken new <;> by_cases lowered : lower old = lower new <;>
    by_cases folded : fold old = fold new <;> simp [same, lowered, folded]

theorem Parent.of_plan_eq_plain (plan : start.plan lower old new = .plain) :
    old ≠ new ∧ start.has old = true ∧ start.taken new = false := by
  rw [Parent.plan] at plan
  by_cases same : old = new
  · simp [same] at plan
  cases one : start.oneFolder lower old new <;> cases listed : start.has old <;>
    cases staged : start.has (stagedName old) <;> cases present : start.has new <;>
    cases taken : start.taken new <;> simp [same, one, listed, staged, present, taken] at plan ⊢

theorem Parent.of_plan_eq_nothing (plan : start.plan lower old new = .nothing) :
    old = new ∨ start.has old = false ∧ start.has (stagedName old) = false := by
  rw [Parent.plan, Parent.oneFolder] at plan
  by_cases same : old = new
  · exact .inl same
  cases listed : start.has old <;> cases staged : start.has (stagedName old) <;>
    cases present : start.has new <;> cases taken : start.taken new <;>
    by_cases lowered : lower old = lower new <;> by_cases folded : fold old = fold new <;>
    simp [same, listed, staged, present, taken, lowered, folded] at plan ⊢

theorem Parent.eq_none_of_has (unlisted : start.has source = false) :
    start.folder source = none := by
  simpa [Parent.has] using unlisted

theorem Moved.of_moved (other : source ≠ target) (held : start.folder source = some content)
    (unlisted : start.folder target = none)
    (free : start.taken target = false ∨ fold source = fold target) :
    Moved start (start.moved source target content) source target := by
  refine ⟨unlisted, ⟨content, held, Parent.folder_moved_target⟩, ?_, ?_⟩
  · rw [Parent.folder_moved held free, if_neg other, if_pos rfl]
  · intro name notSource notTarget
    rw [Parent.folder_moved held free, if_neg notTarget, if_neg notSource]

theorem Moved.trans {between : String} (other : source ≠ target)
    (first : Moved start middle source between) (second : Moved middle last between target)
    (apart : between ≠ source) : Moved start last source target := by
  obtain ⟨content, held, there⟩ := first.there
  obtain ⟨moved, inside, reached⟩ := second.there
  obtain rfl := Option.some.inj (there.symm.trans inside)
  by_cases onto : target = between
  · rw [onto] at second
    rw [second.free] at inside
    cases inside
  refine ⟨?_, ⟨_, held, reached⟩, ?_, ?_⟩
  · rw [← first.rest target (Ne.symm other) onto]
    exact second.free
  · rw [second.rest source (Ne.symm apart) other]
    exact first.gone
  · intro name notSource notTarget
    by_cases isBetween : name = between
    · rw [isBetween, second.gone, first.free]
    · rw [second.rest name isBetween notTarget, first.rest name notSource isBetween]

/-- A first rename that goes over nothing. -/
theorem SparesStaged.moved (spares : SparesStaged isEmpty lower start old new)
    (plan : start.plan lower old new = .throughStaged) (held : start.folder old = some content)
    (renamed : start.rename isEmpty old (stagedName old) =
      some (start.moved old (stagedName old) content)) :
    Moved start (start.moved old (stagedName old) content) old (stagedName old) := by
  obtain ⟨other, one, listed, unstaged, unlisted⟩ := Parent.plan_eq_throughStaged.mp plan
  have apart : old ≠ stagedName old := by
    intro same
    rw [← same, listed] at unstaged
    cases unstaged
  apply Moved.of_moved apart held (Parent.eq_none_of_has unstaged)
  rcases (Parent.rename_eq_some held renamed).2 with same | empty
  · exact .inr same
  cases answers : start.answering (stagedName old) with
  | none => exact .inl (by rw [Parent.taken, answers]; rfl)
  | some entry =>
      obtain ⟨name, inside⟩ := entry
      obtain ⟨found, folded⟩ := Parent.folder_of_answering answers
      by_cases own : name = old
      · rw [own] at folded
        exact .inr folded
      · have kept := spares other one listed unstaged unlisted name inside found own folded
        rw [empty _ answers] at kept
        cases kept

theorem Parent.plain_moved (plan : start.plan lower old new = .plain)
    (held : start.folder old = some content) :
    Moved start (start.moved old new content) old new := by
  obtain ⟨other, -, free⟩ := Parent.of_plan_eq_plain plan
  exact .of_moved other held (Parent.folder_of_not_taken free) (.inl free)

theorem Parent.finishStaged_moved (plan : start.plan lower old new = .finishStaged)
    (held : start.folder (stagedName old) = some content) :
    start.folder old = none ∧
      Moved start (start.moved (stagedName old) new content) (stagedName old) new := by
  obtain ⟨-, unlisted, -, free⟩ := Parent.plan_eq_finishStaged.mp plan
  refine ⟨Parent.eq_none_of_has unlisted, .of_moved ?_ held (Parent.folder_of_not_taken free)
    (.inl free)⟩
  intro same
  rw [same, Parent.folder_of_not_taken free] at held
  cases held

section

variable (spares : SparesStaged isEmpty lower start old new)
include spares

theorem SparesStaged.moved_through (plan : start.plan lower old new = .throughStaged)
    (held : start.folder old = some content) (renamed : start.rename isEmpty old (stagedName old) =
      some (start.moved old (stagedName old) content))
    (free : (start.moved old (stagedName old) content).taken new = false) :
    Moved start ((start.moved old (stagedName old) content).moved (stagedName old) new content)
      old new := by
  obtain ⟨other, -, listed, unstaged, -⟩ := Parent.plan_eq_throughStaged.mp plan
  have first := spares.moved plan held renamed
  have unlisted := Parent.folder_of_not_taken free
  have through : Moved (start.moved old (stagedName old) content)
      ((start.moved old (stagedName old) content).moved (stagedName old) new content)
      (stagedName old) new := by
    refine .of_moved ?_ Parent.folder_moved_target unlisted (.inl free)
    intro same
    rw [← same, Parent.folder_moved_target] at unlisted
    cases unlisted
  refine .trans other first through ?_
  intro same
  rw [same, listed] at unstaged
  cases unstaged

/-- What a run leaves. -/
theorem MoveEnds.allOrNothing (ends : MoveEnds isEmpty mayFail lower start old new ending last) :
    AllOrNothing start old new ending last := by
  cases ends with
  | cut => exact .inl rfl
  | failed => exact .inl rfl
  | nothing plan =>
      refine .inl ⟨rfl, ?_⟩
      rcases Parent.of_plan_eq_nothing plan with same | ⟨unlisted, unstaged⟩
      · exact .inl same
      · exact .inr ⟨Parent.eq_none_of_has unlisted, Parent.eq_none_of_has unstaged⟩
  | plain plan held ends =>
      have moved := Parent.plain_moved plan held
      rcases ends with rfl | rfl
      · exact .inr (.inr (.inl moved))
      · exact .inr (.inl moved)
  | staged plan held renamed ends =>
      have moved := spares.moved plan held renamed
      rcases ends with rfl | ⟨-, error, rfl⟩
      · exact .inr (.inl moved)
      · exact .inr moved
  | throughStaged plan held renamed free ends =>
      have moved := spares.moved_through plan held renamed free
      rcases ends with rfl | rfl
      · exact .inr (.inr (.inl moved))
      · exact .inr (.inl moved)
  | finishStaged plan held ends =>
      have moved := Parent.finishStaged_moved plan held
      rcases ends with rfl | rfl
      · exact .inr (.inr (.inr moved))
      · exact .inr (.inr moved)

end

theorem MoveEnds.unchanged (gone : start.folder old = none)
    (settled : start.taken new = true ∨ start.folder (stagedName old) = none)
    (ends : MoveEnds isEmpty mayFail lower start old new ending last) : last = start := by
  have unlisted : ¬ start.has old = true := by simp [Parent.has, gone]
  cases ends with
  | cut | failed | nothing => rfl
  | plain plan => exact absurd (Parent.of_plan_eq_plain plan).2.1 unlisted
  | staged plan | throughStaged plan =>
      exact absurd (Parent.plan_eq_throughStaged.mp plan).2.2.1 unlisted
  | finishStaged plan held =>
      obtain ⟨-, -, -, free⟩ := Parent.plan_eq_finishStaged.mp plan
      rcases settled with taken | unstaged
      · rw [taken] at free
        cases free
      · rw [unstaged] at held
        cases held

theorem taken_of_folder_moved : (start.moved source target content).taken target = true :=
  Parent.taken_of_has (by simp [Parent.has])

/-- A completed run leaves nothing more to move. -/
theorem MoveEnds.settled (spares : SparesStaged isEmpty lower start old new)
    (ends : MoveEnds isEmpty True lower start old new (.returned ()) done)
    (again : MoveEnds isEmpty mayFail lower done old new ending last) : last = done := by
  have moved := ends.allOrNothing spares
  cases ends with
  | nothing plan =>
      rcases moved with ⟨-, same | ⟨gone, unstaged⟩⟩ | moved | ⟨gone, moved⟩
      · subst same
        have plan : start.plan lower old old = .nothing := by simp [Parent.plan]
        cases again with
        | cut | failed | nothing => rfl
        | plain other | staged other | throughStaged other | finishStaged other =>
            rw [plan] at other
            cases other
      · exact again.unchanged gone (.inr unstaged)
      · obtain ⟨content, held, -⟩ := moved.there
        rw [moved.gone] at held
        cases held
      · exact again.unchanged gone (.inr moved.gone)
  | plain plan held =>
      exact again.unchanged (Parent.plain_moved plan held).gone (.inl taken_of_folder_moved)
  | staged _ _ _ ends => rcases ends with same | ⟨-, error, same⟩ <;> cases same
  | throughStaged plan held renamed free =>
      exact again.unchanged (spares.moved_through plan held renamed free).gone
        (.inl taken_of_folder_moved)
  | finishStaged plan held =>
      obtain ⟨gone, moved⟩ := Parent.finishStaged_moved plan held
      obtain ⟨other, unlisted, staged, -⟩ := Parent.plan_eq_finishStaged.mp plan
      have apart : old ≠ stagedName old := by
        intro own
        rw [← own, unlisted] at staged
        cases staged
      refine again.unchanged ?_ (.inl taken_of_folder_moved)
      rw [moved.rest old apart other]
      exact gone

/-- Two runs from one parent, the second neither cut nor let down by a rename. -/
theorem MoveEnds.determined
    (ends : MoveEnds isEmpty True lower start old new (.returned ()) done)
    (again : MoveEnds isEmpty False lower start old new ending last) (uncut : ending ≠ .cut) :
    last = done ∧ ending = .returned () := by
  cases ends with
  | nothing plan =>
      cases again with
      | cut => exact absurd rfl uncut
      | nothing => exact ⟨rfl, rfl⟩
      | failed error why => simp [plan] at why
      | plain other | staged other | throughStaged other | finishStaged other =>
          rw [plan] at other
          cases other
  | plain plan held =>
      cases again with
      | cut => exact absurd rfl uncut
      | failed error why => simp [plan] at why
      | plain _ same ends =>
          obtain rfl := Option.some.inj (held.symm.trans same)
          exact ⟨rfl, ends.resolve_left uncut⟩
      | nothing other | staged other | throughStaged other | finishStaged other =>
          rw [plan] at other
          cases other
  | staged _ _ _ ends => rcases ends with same | ⟨-, error, same⟩ <;> cases same
  | throughStaged plan held renamed free =>
      cases again with
      | cut => exact absurd rfl uncut
      | failed error why => simp [plan, renamed] at why
      | staged _ same _ ends =>
          obtain rfl := Option.some.inj (held.symm.trans same)
          rcases ends with rfl | ⟨fails | taken, -⟩
          · exact absurd rfl uncut
          · exact fails.elim
          · rw [free] at taken
            cases taken
      | throughStaged _ same _ _ ends =>
          obtain rfl := Option.some.inj (held.symm.trans same)
          exact ⟨rfl, ends.resolve_left uncut⟩
      | nothing other | plain other | finishStaged other =>
          rw [plan] at other
          cases other
  | finishStaged plan held =>
      cases again with
      | cut => exact absurd rfl uncut
      | failed error why => simp [plan] at why
      | finishStaged _ same ends =>
          obtain rfl := Option.some.inj (held.symm.trans same)
          exact ⟨rfl, ends.resolve_left uncut⟩
      | nothing other | plain other | staged other | throughStaged other =>
          rw [plan] at other
          cases other

/-- A crash leaves the parent as it was, or done, or where a run still completes
the move. -/
theorem MoveEnds.resumes (spares : SparesStaged isEmpty lower start old new)
    (ends : MoveEnds isEmpty True lower start old new (.returned ()) done)
    (crash : MoveEnds isEmpty True lower start old new .cut middle) :
    middle = done ∨ MoveEnds isEmpty True lower middle old new (.returned ()) done := by
  have same_of_plan {content other : Folder} {name : String}
      (held : start.folder name = some content) (also : start.folder name = some other) :
      content = other := Option.some.inj (held.symm.trans also)
  cases crash with
  | cut => exact .inr ends
  | plain plan held =>
      obtain ⟨same, -⟩ := ends.determined (.plain plan held (.inr rfl)) (by simp)
      exact .inl same
  | finishStaged plan held =>
      obtain ⟨same, -⟩ := ends.determined (.finishStaged plan held (.inr rfl)) (by simp)
      exact .inl same
  | throughStaged plan held renamed free =>
      obtain ⟨same, -⟩ := ends.determined (.throughStaged plan held renamed free (.inr rfl))
        (by simp)
      exact .inl same
  | staged plan held renamed =>
      cases ends with
      | throughStaged _ same _ free =>
          obtain rfl := same_of_plan held same
          have moved := spares.moved plan held renamed
          refine .inr (.finishStaged ?_ Parent.folder_moved_target (.inr rfl))
          refine Parent.plan_eq_finishStaged.mpr
            ⟨(Parent.plan_eq_throughStaged.mp plan).1, ?_, ?_, free⟩
          · rw [Parent.has, moved.gone]
            rfl
          · rw [Parent.has, Parent.folder_moved_target]
            rfl
      | staged _ _ _ ends => rcases ends with same | ⟨-, error, same⟩ <;> cases same
      | nothing other | plain other | finishStaged other =>
          rw [plan] at other
          cases other

variable {name : String}

theorem AllOrNothing.rest (ends : AllOrNothing start old new ending last) (notOld : name ≠ old)
    (notStaged : name ≠ stagedName old) (notNew : name ≠ new) :
    last.folder name = start.folder name := by
  cases ending with
  | returned value =>
      rcases ends with ⟨rfl, -⟩ | moved | ⟨-, moved⟩
      · rfl
      · exact moved.rest name notOld notNew
      · exact moved.rest name notStaged notNew
  | failed error =>
      rcases ends with rfl | moved
      · rfl
      · exact moved.rest name notOld notStaged
  | cut =>
      rcases ends with rfl | moved | moved | ⟨-, moved⟩
      · rfl
      · exact moved.rest name notOld notStaged
      · exact moved.rest name notOld notNew
      · exact moved.rest name notStaged notNew

section

variable {held : Folder} (own : start.folder old = some held) (other : old ≠ new)
  (one : lower old = lower new ∨ fold old = fold new)
  (unstaged : start.has (stagedName old) = false) (unlisted : start.has new = false)
  (found : start.folder name = some content)
include own other one unstaged unlisted found

/-- The first rename of a move goes over an empty folder of another spelling. -/
theorem run_staged (folded : fold name = fold (stagedName old)) (empty : isEmpty content = true) :
    Runs (serves isEmpty True) start (moveStateDir lower parentText old new) .cut
      (start.moved old (stagedName old) held) := by
  have listed : start.has old = true := by rw [Parent.has, own]; rfl
  have same : start.oneFolder lower old new = true := by
    rcases one with lowered | folded
    · simp [Parent.oneFolder, lowered]
    · simp [Parent.oneFolder, folded, listed, unlisted]
  have answers : start.answering (stagedName old) = some (name, content) := by
    rw [Parent.answering, ← folded]
    exact Parent.answering_of_folder found
  have renamed : start.rename isEmpty old (stagedName old) =
      some (start.moved old (stagedName old) held) := by
    simp [Parent.rename, Parent.answering_of_folder own, answers, empty]
  by_contra missed
  have ensured : Ensures (serves isEmpty True)
      (fun ending last => ¬ (ending = .cut ∧ last = start.moved old (stagedName old) held))
      (moveStateDir lower parentText old new) start := by
    apply ensures_iff_runs.mpr
    rintro ending last run ⟨rfl, rfl⟩
    exact missed run
  rw [moveStateDir, if_neg other] at ensured
  have rest := of_ensures_sameFolder (ensured.2 _ start ⟨rfl, .inl rfl⟩)
  rw [same, if_pos rfl, stageDir, listed, unstaged] at rest
  dsimp only at rest
  rw [unlisted] at rest
  exact (rest.2 _ _ (.inl ⟨rfl, renamed⟩)).cut ⟨rfl, rfl⟩

theorem not_sound_of_empty (apart : name ≠ old) (folded : fold name = fold (stagedName old))
    (empty : isEmpty content = true) : ¬ MoveSound isEmpty lower parentText start old new := by
  intro sound
  have notStaged : name ≠ stagedName old := by
    rintro rfl
    rw [Parent.has, found] at unstaged
    cases unstaged
  have notNew : name ≠ new := by
    rintro rfl
    rw [Parent.has, found] at unlisted
    cases unlisted
  have unchanged := (sound.ends _ _ (run_staged own other one unstaged unlisted found folded
    empty)).rest apart notStaged notNew
  rw [found, Parent.folder_moved_of_ne notStaged, if_pos (.inl folded)] at unchanged
  cases unchanged

end

end Sound

/-- A move is all or nothing and can be run again exactly when no empty folder of
another spelling answers to its temporary name. -/
theorem moveStateDir_sound_iff (isEmpty : Folder → Bool) (lower : String → String)
    (parentText : String) (start : Parent fold Folder) (old new : String) :
    MoveSound isEmpty lower parentText start old new ↔
      SparesStaged isEmpty lower start old new := by
  have outcome {mayFail : Prop} {parent last : Parent fold Folder}
      {ending : Ending MoveError Unit}
      (run : Runs (serves isEmpty mayFail) parent (moveStateDir lower parentText old new) ending
        last) : MoveEnds isEmpty mayFail lower parent old new ending last :=
    ensures_moveStateDir.of_run run
  constructor
  · intro sound other one listed unstaged unlisted name content found apart folded
    cases empty : isEmpty content with
    | false => rfl
    | true =>
        obtain ⟨held, own⟩ := Option.isSome_iff_exists.mp listed
        exact (not_sound_of_empty own other one unstaged unlisted found apart folded empty sound).elim
  · intro spares
    refine ⟨?_, ?_, ?_⟩
    · intro ending last run
      exact (outcome run).allOrNothing spares
    · intro done middle ending last complete crash again uncut
      rcases (outcome complete).resumes spares (outcome crash) with rfl | resumes
      · exact ⟨(outcome complete).settled spares (outcome again), .inl rfl⟩
      · obtain ⟨same, returned⟩ := resumes.determined (outcome again) uncut
        exact ⟨same, .inr returned⟩
    · intro done ending last complete again
      exact (outcome complete).settled spares (outcome again)

namespace CaseOnly

/-- A file system that folds ASCII case. -/
def foldCase (name : String) : String := String.ofList (name.toList.map Char.toLower)

/-- The folder of `Eng`, and an empty one an interrupted move of `ENG` left. -/
def origins : Parent foldCase (List String) where
  slot key :=
    if key = "eng" then some ("Eng", ["state.json"])
    else if key = ".eng.renaming" then some (".ENG.renaming", [])
    else none
  spelled key name folder holds := by
    have eng : foldCase "Eng" = "eng" := by decide +kernel
    have staged : foldCase ".ENG.renaming" = ".eng.renaming" := by decide +kernel
    split at holds
    next same => rw [same, ← (Prod.mk.inj (Option.some.inj holds)).1, eng]
    next =>
      split at holds
      next same => rw [same, ← (Prod.mk.inj (Option.some.inj holds)).1, staged]
      next => cases holds

end CaseOnly

/-- A move of `Eng` to `eng` removes the empty folder `.ENG.renaming`. -/
theorem moveStateDir_replaces_staged :
    ¬ MoveSound List.isEmpty CaseOnly.foldCase "origins" CaseOnly.origins "Eng" "eng" :=
  @not_sound_of_empty _ _ List.isEmpty _ _ _ _ _ [] ".ENG.renaming" ["state.json"]
    (by decide +kernel) (by decide) (.inl (by decide +kernel)) (by decide +kernel)
    (by decide +kernel) (by decide +kernel) (by decide) (by decide +kernel) rfl

end Crystalline.Rename
