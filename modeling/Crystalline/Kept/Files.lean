import Crystalline.Text.Basic

/-!
# Files and folders

A tree of files and folders below one folder that is always there.  An entry is named by
the names on the way to it.  Whatever stands somewhere stands in a folder, so only a
folder has entries below it; each operation keeps that.
-/

namespace Crystalline.Kept

open Text

/-- The names on the way to an entry, from the top folder. -/
abbrev Place := List Text

inductive Node where
  | file (content : Text)
  | folder
  deriving DecidableEq, Repr

/-- The kinds of `std::io::Error` an operation ends with. -/
inductive IoError where
  | notFound
  | alreadyExists
  | invalidInput
  | other
  deriving DecidableEq, Repr

structure Files where
  node : Place → Option Node
  /-- Every place where something stands is among these. -/
  places : List Place
  listed : ∀ place, node place ≠ none → place ∈ places
  rooted : ∀ place, node place ≠ none →
    place ≠ [] ∧ (place.dropLast = [] ∨ node place.dropLast = some .folder)

namespace Files

/-- A folder with nothing in it. -/
def empty : Files where
  node := fun _ => none
  places := []
  listed := fun _ some => absurd rfl some
  rooted := fun _ some => absurd rfl some

/-- `Path::is_dir`. -/
def IsFolder (files : Files) (place : Place) : Prop :=
  place = [] ∨ files.node place = some .folder

instance (files : Files) (place : Place) : Decidable (files.IsFolder place) :=
  inferInstanceAs (Decidable (_ ∨ _))

/-- The text of a file. -/
def text? (files : Files) (place : Place) : Option Text :=
  match files.node place with
  | some (.file content) => some content
  | _ => none

variable {files : Files} {place other : Place}

theorem isFolder_dropLast (some : files.node place ≠ none) : files.IsFolder place.dropLast :=
  (files.rooted place some).2

theorem isFolder_of_prefix {front back : Place} (present : back ≠ [])
    (some : files.node (front ++ back) ≠ none) : files.IsFolder front := by
  induction back using List.reverseRecOn generalizing front with
  | nil => exact absurd rfl present
  | append_singleton back name induction =>
      have parent := isFolder_dropLast some
      rw [← List.append_assoc, List.dropLast_concat] at parent
      rcases List.eq_nil_or_concat back with rfl | ⟨before, last, rfl⟩
      · rwa [List.append_nil] at parent
      · refine induction (by simp) ?_
        rcases parent with none | folder
        · simp at none
        · rw [folder]
          exact nofun

/-- The tree with a node at a place that stands in a folder. -/
def put (files : Files) (place : Place) (node : Node) (named : place ≠ [])
    (parent : files.IsFolder place.dropLast)
    (keeps : files.node place = some .folder → node = .folder) : Files where
  node := fun other => if other = place then some node else files.node other
  places := place :: files.places
  listed := by
    intro other some
    by_cases same : other = place
    · exact same ▸ List.mem_cons_self
    · rw [if_neg same] at some
      exact List.mem_cons_of_mem _ (files.listed other some)
  rooted := by
    intro other some
    have within : other ≠ [] ∧ files.IsFolder other.dropLast := by
      by_cases same : other = place
      · exact same ▸ ⟨named, parent⟩
      · rw [if_neg same] at some
        exact files.rooted other some
    refine ⟨within.1, within.2.imp_right fun folder => ?_⟩
    by_cases same : other.dropLast = place
    · rw [if_pos same, keeps (same ▸ folder)]
    · rw [if_neg same, folder]

/-- The tree without what stands at a place, no folder. -/
def remove (files : Files) (place : Place) (leaf : files.node place ≠ some .folder) : Files where
  node := fun other => if other = place then none else files.node other
  places := files.places
  listed := by
    intro other some
    by_cases same : other = place
    · rw [if_pos same] at some
      exact absurd rfl some
    · rw [if_neg same] at some
      exact files.listed other some
  rooted := by
    intro other some
    by_cases same : other = place
    · rw [if_pos same] at some
      exact absurd rfl some
    · rw [if_neg same] at some
      obtain ⟨named, parent⟩ := files.rooted other some
      refine ⟨named, parent.imp_right fun folder => ?_⟩
      rw [if_neg fun (onto : other.dropLast = place) => leaf (onto ▸ folder), folder]

theorem node_put {node : Node} {named : place ≠ []} {parent : files.IsFolder place.dropLast}
    {keeps : files.node place = some .folder → node = .folder} (other : Place) :
    (files.put place node named parent keeps).node other =
      if other = place then some node else files.node other :=
  rfl

theorem node_remove {leaf : files.node place ≠ some .folder} (other : Place) :
    (files.remove place leaf).node other = if other = place then none else files.node other :=
  rfl

/-- The tree with a folder moved, and all it holds with it. -/
def moveFolder (files : Files) (source target : Place) (folder : files.node source = some .folder)
    (named : target ≠ []) (parent : files.IsFolder target.dropLast)
    (apart : ¬ source <+: target) : Files where
  node := fun place =>
    if target <+: place then files.node (source ++ place.drop target.length)
    else if source <+: place then none
    else files.node place
  places := files.places ++ files.places.map fun place => target ++ place.drop source.length
  listed := by
    intro place some
    by_cases inside : target <+: place
    · obtain ⟨rest, rfl⟩ := inside
      rw [if_pos (List.prefix_append _ _), List.drop_left] at some
      have among := files.listed _ some
      exact List.mem_append_right _ (List.mem_map.mpr ⟨_, among, by rw [List.drop_left]⟩)
    · rw [if_neg inside] at some
      by_cases gone : source <+: place
      · rw [if_pos gone] at some
        exact absurd rfl some
      · rw [if_neg gone] at some
        exact List.mem_append_left _ (files.listed place some)
  rooted := by
    intro place some
    have sourced : source ≠ [] := (files.rooted source (by rw [folder]; exact nofun)).1
    by_cases inside : target <+: place
    · obtain ⟨rest, rfl⟩ := inside
      refine ⟨List.append_ne_nil_of_left_ne_nil named rest, ?_⟩
      rcases List.eq_nil_or_concat rest with rfl | ⟨front, name, rfl⟩
      · rw [List.append_nil]
        refine parent.imp_right fun standing => ?_
        have short : ¬ target <+: target.dropLast := by
          intro inside
          have shorter := inside.length_le
          have long := List.length_pos_iff.mpr named
          rw [List.length_dropLast] at shorter
          omega
        rw [if_neg short, if_neg fun inside => apart (inside.trans (List.dropLast_prefix _)),
          standing]
      · rw [if_pos (List.prefix_append _ _), List.drop_left, List.concat_eq_append,
          ← List.append_assoc] at some
        have standing := isFolder_dropLast some
        rw [List.dropLast_concat] at standing
        rw [List.concat_eq_append, ← List.append_assoc, List.dropLast_concat,
          if_pos (List.prefix_append _ _), List.drop_left]
        exact .inr (standing.resolve_left (List.append_ne_nil_of_left_ne_nil sourced _))
    · rw [if_neg inside] at some
      by_cases gone : source <+: place
      · rw [if_pos gone] at some
        exact absurd rfl some
      · rw [if_neg gone] at some
        obtain ⟨named, parent⟩ := files.rooted place some
        refine ⟨named, parent.imp_right fun standing => ?_⟩
        rw [if_neg fun above => inside (above.trans (List.dropLast_prefix _)),
          if_neg fun above => gone (above.trans (List.dropLast_prefix _)), standing]

end Files

/-- What is left of running a program: the trees it passed through, the last of them, and
its answer. -/
structure Ran (α : Type) where
  passed : List Files
  files : Files
  result : Except IoError α

/-- A program that works on the tree, step by step. -/
def Io (α : Type) := Files → Ran α

namespace Io

variable {α β : Type}

def pure (value : α) : Io α := fun files => ⟨[], files, .ok value⟩

def fail (error : IoError) : Io α := fun files => ⟨[], files, .error error⟩

def bind (first : Io α) (next : α → Io β) : Io β := fun files =>
  let ran := first files
  match ran.result with
  | .error error => ⟨ran.passed, ran.files, .error error⟩
  | .ok value =>
      let rest := next value ran.files
      ⟨ran.passed ++ rest.passed, rest.files, rest.result⟩

instance : Monad Io where
  pure := pure
  bind := bind

/-- The program with its error as its answer. -/
def attempt (program : Io α) : Io (Except IoError α) := fun files =>
  let ran := program files
  ⟨ran.passed, ran.files, .ok ran.result⟩

def ofExcept : Except IoError α → Io α
  | .ok value => pure value
  | .error error => fail error

/-- One step. -/
def step (change : Files → Except IoError Files) : Io Unit := fun files =>
  match change files with
  | .ok after => ⟨[after], after, .ok ()⟩
  | .error error => ⟨[], files, .error error⟩

/-- What the program reads of the tree. -/
def reads (read : Files → α) : Io α := fun files => ⟨[], files, .ok (read files)⟩

end Io

namespace Files

/-- `mkdir`, where `create_dir_all` comes by: a folder that is there is enough. -/
def makeFolder (place : Place) (files : Files) : Except IoError Files :=
  if files.node place = some .folder then .ok files
  else if ready : place ≠ [] ∧ files.node place = none ∧ files.IsFolder place.dropLast then
    .ok (files.put place .folder ready.1 ready.2.2 fun _ => rfl)
  else .error .alreadyExists

/-- `OpenOptions::create_new`: an empty file where nothing stands. -/
def createNew (place : Place) (files : Files) : Except IoError Files :=
  if ready : place ≠ [] ∧ files.node place = none ∧ files.IsFolder place.dropLast then
    .ok (files.put place (.file []) ready.1 ready.2.2 fun folder =>
      absurd (folder.symm.trans ready.2.1) nofun)
  else if files.node place = none then .error .notFound
  else .error .alreadyExists

/-- What an open file holds after a part of it was written. -/
def fill (place : Place) (content : Text) (files : Files) : Except IoError Files :=
  match found : files.node place with
  | some (.file _) =>
      .ok (files.put place (.file content) (files.rooted place (by rw [found]; exact nofun)).1
        (isFolder_dropLast (by rw [found]; exact nofun)) fun folder =>
          absurd (folder.symm.trans found) nofun)
  | _ => .error .other

/-- `std::fs::hard_link`: the name of a finished file's text at another place.  A file
system without links refuses it otherwise than for a name that is taken. -/
def hardLink (links : Bool) (source target : Place) (files : Files) : Except IoError Files :=
  match files.node target with
  | some _ => .error .alreadyExists
  | none =>
      if links then
        match files.text? source with
        | none => .error .notFound
        | some content =>
            match createNew target files with
            | .error error => .error error
            | .ok made => fill target content made
      else .error .other

/-- `std::fs::remove_file`. -/
def removeFile (place : Place) (files : Files) : Except IoError Files :=
  match found : files.node place with
  | some (.file _) =>
      .ok (files.remove place fun folder => absurd (folder.symm.trans found) nofun)
  | none => .error .notFound
  | some .folder => .error .other

/-- `std::fs::rename` of a file: over another file, and over no folder. -/
def renameFile (source target : Place) (files : Files) : Except IoError Files :=
  match files.text? source with
  | none => .error .notFound
  | some content =>
      if source = target then .ok files
      else
        match removeFile source files with
        | .error error => .error error
        | .ok left =>
            match left.node target with
            | some .folder => .error .other
            | some (.file _) => fill target content left
            | none =>
                match createNew target left with
                | .error error => .error error
                | .ok made => fill target content made

/-- `std::fs::rename` of a folder to where nothing stands. -/
def renameFolder (source target : Place) (files : Files) : Except IoError Files :=
  if ready : files.node source = some .folder ∧ files.node target = none ∧ target ≠ [] ∧
      files.IsFolder target.dropLast ∧ ¬ source <+: target then
    .ok (files.moveFolder source target ready.1 ready.2.2.1 ready.2.2.2.1 ready.2.2.2.2)
  else .error .other

end Files

/-- `std::fs::create_dir_all`, below a folder that is there. -/
def createDirsFrom (above : Place) : List Text → Io Unit
  | [] => pure ()
  | name :: names => do
      Io.step (Files.makeFolder (above ++ [name]))
      createDirsFrom (above ++ [name]) names

def createDirAll (place : Place) : Io Unit := createDirsFrom [] place

/-- `write_all`, which may be cut off after any part. -/
def fillFrom (place : Place) (written : Text) : Text → Io Unit
  | [] => pure ()
  | char :: rest => do
      Io.step (Files.fill place (written ++ [char]))
      fillFrom place (written ++ [char]) rest

/-- `write_new`: fails when something is there. -/
def writeNew (place : Place) (text : Text) : Io Unit := do
  Io.step (Files.createNew place)
  fillFrom place [] text

/-- Everything that stood still stands as it was, and of what is new only what stands at
a free place is a file. -/
structure Grows (free : Place → Prop) (files after : Files) : Prop where
  stays : ∀ place, files.node place ≠ none → after.node place = files.node place
  new : ∀ place, files.node place = none → after.text? place ≠ none → free place

namespace Grows

variable {free wider : Place → Prop} {files middle after : Files} {place : Place}

theorem refl (free : Place → Prop) (files : Files) : Grows free files files where
  stays _ _ := rfl
  new place none some := by
    rw [Files.text?, none] at some
    exact absurd rfl some

theorem trans (first : Grows free files middle) (second : Grows free middle after) :
    Grows free files after where
  stays place some := by
    rw [second.stays place (by rwa [first.stays place some]), first.stays place some]
  new place none some := by
    by_cases fresh : middle.node place = Option.none
    · exact second.new place fresh some
    · refine first.new place none ?_
      rwa [Files.text?, second.stays place fresh] at some

section

variable (grows : Grows free files after)
include grows

theorem mono (onto : ∀ place, free place → wider place) :
    Grows wider files after where
  stays := grows.stays
  new place none some := onto place (grows.new place none some)

theorem text (some : files.node place ≠ none) : after.text? place = files.text? place := by
  rw [Files.text?, grows.stays place some]
  rfl

theorem node_eq_none (empty : after.node place = none) : files.node place = none := by
  by_contra some
  rw [grows.stays place some] at empty
  exact some empty

end

theorem at_place (grows : Grows free files middle) (fresh : files.node place = none)
    (own : after.text? place ≠ none → free place)
    (others : ∀ other, other ≠ place → after.node other = middle.node other) :
    Grows free files after where
  stays other some := by
    have apart : other ≠ place := by
      rintro rfl
      exact some fresh
    rw [others other apart, grows.stays other some]
  new other none some := by
    by_cases same : other = place
    · exact same ▸ own (same ▸ some)
    · refine grows.new other none ?_
      rwa [Files.text?, others other same] at some

end Grows

namespace Files

variable {files after : Files} {place source target : Place} {content : Text}

theorem makeFolder_grows {free : Place → Prop} (made : makeFolder place files = .ok after) :
    Grows free files after := by
  unfold makeFolder at made
  split_ifs at made with there ready
  · cases made
    exact Grows.refl free files
  · cases made
    refine (Grows.refl free files).at_place ready.2.1 (fun some => ?_) fun other apart => ?_
    · rw [text?, node_put, if_pos rfl] at some
      exact absurd rfl some
    · rw [node_put, if_neg apart]

theorem createNew_ok (made : createNew place files = .ok after) :
    files.node place = none ∧ after.node place = some (.file []) ∧
      ∀ other, other ≠ place → after.node other = files.node other := by
  unfold createNew at made
  split_ifs at made with ready
  cases made
  refine ⟨ready.2.1, ?_, fun other apart => ?_⟩
  · rw [node_put, if_pos rfl]
  · rw [node_put, if_neg apart]

variable {before : Text}

theorem fill_eq (found : files.node place = some (.file before)) :
    ∃ after, fill place content files = .ok after ∧ after.node place = some (.file content) ∧
      ∀ other, other ≠ place → after.node other = files.node other := by
  unfold fill
  split
  · refine ⟨_, rfl, ?_, fun other apart => ?_⟩
    · rw [node_put, if_pos rfl]
    · rw [node_put, if_neg apart]
  · rename_i no
    exact absurd found (no before)

theorem text?_eq_some_iff : files.text? place = some content ↔
    files.node place = some (.file content) := by
  unfold text?
  split
  · rename_i other found
    rw [found, Option.some.injEq, Option.some.injEq, Node.file.injEq]
  · rename_i no
    refine ⟨nofun, fun found => absurd found (no content)⟩

theorem hardLink_ok {links : Bool} (linked : hardLink links source target files = .ok after) :
    files.node target = none ∧ after.text? target = files.text? source ∧
      ∀ other, other ≠ target → after.node other = files.node other := by
  unfold hardLink at linked
  split at linked
  · cases linked
  · rename_i free
    split_ifs at linked
    split at linked
    · cases linked
    · rename_i content found
      split at linked
      · cases linked
      · rename_i made created
        obtain ⟨-, opened, others⟩ := createNew_ok created
        obtain ⟨filled, same, written, kept⟩ := @fill_eq made target content _ opened
        rw [same] at linked
        cases linked
        refine ⟨free, ?_, fun other apart => by rw [kept other apart, others other apart]⟩
        rw [found, text?_eq_some_iff, written]

theorem removeFile_eq (found : files.node place = some (.file before)) :
    ∃ after, removeFile place files = .ok after ∧ after.node place = none ∧
      ∀ other, other ≠ place → after.node other = files.node other := by
  unfold removeFile
  split
  · refine ⟨_, rfl, ?_, fun other apart => ?_⟩
    · rw [node_remove, if_pos rfl]
    · rw [node_remove, if_neg apart]
  · rename_i no
    rw [found] at no
    cases no
  · rename_i no
    rw [found] at no
    cases no

/-- A renamed file's text is at its new name, and its old name is free. -/
theorem renameFile_ok (renamed : renameFile source target files = .ok after)
    (apart : source ≠ target) :
    after.text? target = files.text? source ∧ after.node source = none ∧
      ∀ other, other ≠ source → other ≠ target → after.node other = files.node other := by
  unfold renameFile at renamed
  split at renamed
  · cases renamed
  · rename_i content found
    rw [if_neg apart] at renamed
    obtain ⟨left, removed, gone, others⟩ := removeFile_eq (text?_eq_some_iff.mp found)
    rw [removed] at renamed
    simp only at renamed
    split at renamed
    · cases renamed
    · rename_i before taken
      obtain ⟨filled, same, written, kept⟩ := @fill_eq left target content _ taken
      rw [same] at renamed
      cases renamed
      refine ⟨?_, ?_, fun other outer inner => ?_⟩
      · rw [found, text?_eq_some_iff, written]
      · rw [kept source apart, gone]
      · rw [kept other inner, others other outer]
    · rename_i free
      split at renamed
      · cases renamed
      · rename_i made created
        obtain ⟨-, opened, unmoved⟩ := createNew_ok created
        obtain ⟨filled, same, written, kept⟩ := @fill_eq made target content _ opened
        rw [same] at renamed
        cases renamed
        refine ⟨?_, ?_, fun other outer inner => ?_⟩
        · rw [found, text?_eq_some_iff, written]
        · rw [kept source apart, unmoved source apart, gone]
        · rw [kept other inner, unmoved other inner, others other outer]

theorem renameFolder_ok (renamed : renameFolder source target files = .ok after) :
    files.node source = some .folder ∧ files.node target = none ∧ ¬ source <+: target ∧
      ∀ place, after.node place =
        if target <+: place then files.node (source ++ place.drop target.length)
        else if source <+: place then none
        else files.node place := by
  unfold renameFolder at renamed
  split_ifs at renamed with ready
  cases renamed
  exact ⟨ready.1, ready.2.1, ready.2.2.2.2, fun _ => rfl⟩

end Files

namespace Io

variable {α β : Type} {files : Files} {amid : Files → Prop} {failed : Files → Prop}

/-- Every tree that the program passes through from here meets one condition, and its last
tree meets another one, by its answer. -/
def Meets (program : Io α) (files : Files) (amid : Files → Prop) (done : α → Files → Prop)
    (failed : Files → Prop) : Prop :=
  (∀ state ∈ (program files).passed, amid state) ∧
    match (program files).result with
    | .ok value => done value (program files).files
    | .error _ => failed (program files).files

variable {program : Io α} {done : α → Files → Prop} {first : Io α}

theorem Meets.of_ok {value : α} (meets : program.Meets files amid done failed)
    (answered : (program files).result = .ok value) : done value (program files).files := by
  have ended := meets.2
  rwa [answered] at ended

theorem Meets.mono {wider ends : Files → Prop} {done finished : α → Files → Prop}
    (meets : program.Meets files amid done failed) (passed : ∀ state, amid state → wider state)
    (answered : ∀ value after, done value after → finished value after)
    (refused : ∀ after, failed after → ends after) : program.Meets files wider finished ends := by
  refine ⟨fun state member => passed state (meets.1 state member), ?_⟩
  have ended := meets.2
  split at ended
  · exact answered _ _ ended
  · exact refused _ ended

theorem meets_pure {value : α} (met : done value files) :
    (Pure.pure value : Io α).Meets files amid done failed :=
  ⟨nofun, met⟩

theorem meets_fail {error : IoError} (met : failed files) :
    (fail error).Meets files amid done failed :=
  ⟨nofun, met⟩

theorem meets_reads {read : Files → α} (met : done (read files) files) :
    (reads read).Meets files amid done failed :=
  ⟨nofun, met⟩

theorem meets_step {change : Files → Except IoError Files} {done : Unit → Files → Prop}
    (made : ∀ after, change files = .ok after → amid after ∧ done () after)
    (refused : ∀ error, change files = .error error → failed files) :
    (step change).Meets files amid done failed := by
  unfold Meets step
  cases changed : change files with
  | ok after =>
      exact ⟨fun state member => List.mem_singleton.mp member ▸ (made after changed).1,
        (made after changed).2⟩
  | error error => exact ⟨nofun, refused error changed⟩

theorem meets_bind {next : α → Io β} (mid : α → Files → Prop) {done : β → Files → Prop}
    (meets : first.Meets files amid mid failed)
    (later : ∀ value after, mid value after → (next value).Meets after amid done failed) :
    (first >>= next).Meets files amid done failed := by
  obtain ⟨passed, ended⟩ := meets
  change (bind first next).Meets files amid done failed
  cases answered : (first files).result with
  | error error =>
      rw [answered] at ended
      simp only [Meets, bind, answered]
      exact ⟨passed, ended⟩
  | ok value =>
      rw [answered] at ended
      simp only [Meets, bind, answered]
      obtain ⟨next_, last⟩ := later value _ ended
      exact ⟨fun state member => (List.mem_append.mp member).elim (passed state) (next_ state),
        last⟩

theorem meets_attempt {next : Except IoError α → Io β} (mid : α → Files → Prop)
    (fails : Files → Prop) {done : β → Files → Prop} (meets : first.Meets files amid mid fails)
    (later : ∀ value after, mid value after → (next (.ok value)).Meets after amid done failed)
    (refused : ∀ error after, fails after →
      (next (.error error)).Meets after amid done failed) :
    (first.attempt >>= next).Meets files amid done failed := by
  have tried : first.attempt.Meets files amid (fun answer after => match answer with
      | .ok value => mid value after
      | .error _ => fails after) failed := meets
  refine meets_bind _ tried fun answer after ended => ?_
  cases answer with
  | ok value => exact later value after ended
  | error error => exact refused error after ended

end Io

variable {files : Files} {amid failed : Files → Prop} {done : Unit → Files → Prop}

/-- Nothing stood at the place, and no other place is different. -/
structure Beside (place : Place) (files after : Files) : Prop where
  free : files.node place = none
  others : ∀ other, other ≠ place → after.node other = files.node other

variable {place : Place}

theorem fillFrom_meets {written : Text} (rest : Text)
    (opened : files.node place = some (.file written))
    (passed : ∀ state, (∀ other, other ≠ place → state.node other = files.node other) → amid state)
    (filled : ∀ after, (∀ other, other ≠ place → after.node other = files.node other) →
      after.node place = some (.file (written ++ rest)) → done () after) :
    (fillFrom place written rest).Meets files amid done failed := by
  induction rest generalizing written files with
  | nil => exact Io.meets_pure (filled files (fun _ _ => rfl) (by rw [opened, List.append_nil]))
  | cons char rest induction =>
      obtain ⟨next, same, held, others⟩ :=
        @Files.fill_eq files place (written ++ [char]) written opened
      refine Io.meets_bind (fun _ after => after = next)
        (Io.meets_step (fun after changed => ?_) fun error refused => ?_) ?_
      · obtain rfl := Except.ok.inj (same.symm.trans changed)
        exact ⟨passed _ others, rfl⟩
      · cases same.symm.trans refused
      · rintro _ _ rfl
        refine induction held (fun state alike => ?_) fun after alike last => ?_
        · exact passed state fun other apart => (alike other apart).trans (others other apart)
        · refine filled after (fun other apart => (alike other apart).trans (others other apart)) ?_
          rw [last, List.append_assoc]
          rfl

theorem writeNew_meets {text : Text} (passed : ∀ state, Beside place files state → amid state)
    (wrote : ∀ after, Beside place files after → after.node place = some (.file text) →
      done () after) (refused : failed files) :
    (writeNew place text).Meets files amid done failed := by
  refine Io.meets_bind (fun _ after => Beside place files after ∧
    after.node place = some (.file []))
    (Io.meets_step (fun after created => ?_) fun _ _ => refused) ?_
  · obtain ⟨free, opened, others⟩ := Files.createNew_ok created
    exact ⟨passed after ⟨free, others⟩, ⟨free, others⟩, opened⟩
  · rintro _ made ⟨⟨free, others⟩, held⟩
    have beside {state : Files}
        (alike : ∀ other, other ≠ place → state.node other = made.node other) :
        Beside place files state :=
      ⟨free, fun other apart => (alike other apart).trans (others other apart)⟩
    exact fillFrom_meets text held (fun state alike => passed state (beside alike))
      fun after alike last => wrote after (beside alike) last

theorem createDirAll_meets (passed : ∀ state, Grows (fun _ => False) files state → amid state)
    (made : ∀ after, Grows (fun _ => False) files after → done () after)
    (refused : ∀ after, Grows (fun _ => False) files after → failed after) :
    (createDirAll place).Meets files amid done failed := by
  suffices each : ∀ (names : List Text) (above : Place) (start : Files),
      Grows (fun _ => False) files start →
        (createDirsFrom above names).Meets start amid done failed from
    each place [] files (Grows.refl _ files)
  intro names
  induction names with
  | nil => exact fun above start grows => Io.meets_pure (made start grows)
  | cons name names induction =>
      intro above start grows
      refine Io.meets_bind (fun _ => Grows (fun _ => False) files)
        (Io.meets_step (fun after folder => ?_) fun _ _ => refused start grows)
        fun _ after grows => induction _ after grows
      have more := grows.trans (Files.makeFolder_grows folder)
      exact ⟨passed after more, more⟩

end Crystalline.Kept
