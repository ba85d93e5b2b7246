import Crystalline.Merging.EditScript
import Crystalline.Remote.Paths
import Crystalline.Text.Ends

/-!
# Relative links

A relative link is resolved against the folder of its file, and spelled again
when that file or the one it lands on moves.
-/

namespace Crystalline.Links.Relative

open Text
open Merging (commonLength take_commonLength)
open Remote (Path components isUnderAssets)

/-- `folder_of`. -/
def folderOf (path : Path) : Path := ['/'].intercalate (components path).dropLast

/-- The folders a link of a file starts from. -/
def foldersOf (path : Path) : List Text := (components (folderOf path)).filter (· ≠ [])

/-- One segment of a target; a `..` above the top has no place. -/
def follow (parts : List Text) (segment : Text) : Option (List Text) :=
  if segment = [] ∨ segment = ".".toList then some parts
  else if segment = "..".toList then if parts = [] then none else some parts.dropLast
  else some (parts ++ [segment])

/-- `resolve`. -/
def resolve (fromFile : Path) (target : Text) : Option Path :=
  ((components target).foldlM follow (foldersOf fromFile)).map ['/'].intercalate

/-- `relative_to`. -/
def relativeTo (fromFile target : Path) : Text :=
  let start := foldersOf fromFile
  let stop := components target
  let common := commonLength start stop
  ['/'].intercalate (List.replicate (start.length - common) "..".toList ++ stop.drop common)

/-- `trim_start_matches("./")`. -/
def trimHere : Text → Text
  | '.' :: '/' :: rest => trimHere rest
  | text => text

/-- The map of `respell_relative_links`. -/
def respell (source before after : Path) (target : Text) : Option Text :=
  if resolve source target = some before then some (relativeTo source after) else none

/-- The map of `rebase_relative_links`. -/
def rebase (before after : Path) (target : Text) : Option Text :=
  if isUnderAssets target then none
  else do
    let landed ← (resolve before target).filter (· ≠ [])
    let rebased := relativeTo after (if landed = before then after else landed)
    if rebased ≠ trimHere target then some rebased else none

/-- A segment that neither stays nor climbs. -/
def IsName (segment : Text) : Prop := segment ≠ [] ∧ segment ≠ ".".toList ∧ segment ≠ "..".toList

/-- A path of names alone. -/
def Normalized (path : Path) : Prop := ∀ segment ∈ components path, IsName segment

variable {before after path : Path} {target : Text} {parts names : List Text}

theorem components_joined (slashless : ∀ name ∈ names, '/' ∉ name) :
    components (['/'].intercalate names) = if names = [] then [[]] else names := by
  split
  · next none => simp [none, components]
  · next some => exact List.splitOn_intercalate '/' slashless some

theorem follow_joined (slashless : ∀ name ∈ names, '/' ∉ name) :
    (components (['/'].intercalate names)).foldlM follow parts = names.foldlM follow parts := by
  rw [components_joined slashless]
  split
  · next none => simp [none, follow]
  · rfl

theorem follow_up (last : List Text) :
    (List.replicate last.length "..".toList).foldlM follow (parts ++ last) = some parts := by
  induction last using List.reverseRecOn with
  | nil => simp
  | append_singleton last name ih =>
      have climbs : follow (parts ++ (last ++ [name])) "..".toList = some (parts ++ last) := by
        simp [follow, ← List.append_assoc]
      rw [List.length_append, List.length_singleton, List.replicate_succ, List.foldlM_cons, climbs]
      exact ih

theorem follow_down (named : ∀ name ∈ names, IsName name) :
    names.foldlM follow parts = some (parts ++ names) := by
  induction names generalizing parts with
  | nil => simp
  | cons name names ih =>
      obtain ⟨present, notHere, notUp⟩ := named name List.mem_cons_self
      have below : follow parts name = some (parts ++ [name]) := by
        rw [follow, if_neg (not_or.mpr ⟨present, notHere⟩), if_neg notUp]
      simp [below, ih fun other member => named other (.tail _ member)]

theorem resolve_relativeTo (source : Path) (normal : Normalized path) :
    resolve source (relativeTo source path) = some path := by
  have common := take_commonLength (foldersOf source) (components path)
  rw [resolve, relativeTo]
  generalize commonLength (foldersOf source) (components path) = count at common ⊢
  have climbs := @follow_up ((foldersOf source).take count) ((foldersOf source).drop count)
  rw [List.take_append_drop, List.length_drop] at climbs
  rw [follow_joined, List.foldlM_append, climbs]
  · change Option.map _ (List.foldlM _ _ _) = _
    rw [← common, follow_down fun name member => normal name (List.mem_of_mem_drop member),
      List.take_append_drop]
    exact congrArg some (List.intercalate_splitOn '/')
  · intro name member
    rcases List.mem_append.mp member with up | down
    · rw [List.eq_of_mem_replicate up]
      decide
    · exact Ends.not_mem_of_mem_splitOn (List.mem_of_mem_drop down)

/-- A link to a moved file is spelled anew and lands on it; every other link lands where
it did. -/
theorem respelled_link_lands (source : Path) (normal : Normalized after) :
    resolve source ((respell source before after target).getD target) =
      if resolve source target = some before then some after else resolve source target := by
  unfold respell
  split
  · exact resolve_relativeTo source normal
  · rfl

theorem respelled_link_lands_plans :
    resolve "notes/a.md".toList ((respell "notes/a.md".toList "notes/b.md".toList
      "plans/b.md".toList "./b.md".toList).getD "./b.md".toList) =
        some "plans/b.md".toList :=
  respelled_link_lands _ (by unfold Normalized IsName; decide)

theorem named_follow {segments stop : List Text} (done : segments.foldlM follow parts = some stop)
    (slashless : ∀ segment ∈ segments, '/' ∉ segment)
    (named : ∀ part ∈ parts, IsName part ∧ '/' ∉ part) :
    ∀ part ∈ stop, IsName part ∧ '/' ∉ part := by
  induction segments generalizing parts with
  | nil =>
      obtain rfl : parts = stop := by simpa using done
      exact named
  | cons segment segments ih =>
      rw [List.foldlM_cons] at done
      obtain ⟨next, followed, rest⟩ := Option.bind_eq_some_iff.mp done
      refine ih rest (fun other member => slashless other (.tail _ member)) fun part member => ?_
      have clean := slashless segment List.mem_cons_self
      grind [follow, IsName, List.mem_of_mem_dropLast]

theorem normalized_of_resolve (normal : Normalized before)
    (landed : resolve before target = some path) (below : path ≠ []) : Normalized path := by
  obtain ⟨stop, followed, rfl⟩ := Option.map_eq_some_iff.mp landed
  have slashless : ∀ name ∈ (components before).dropLast, '/' ∉ name :=
    fun name member => Ends.not_mem_of_mem_splitOn (List.mem_of_mem_dropLast member)
  have names := named_follow followed (fun _ => Ends.not_mem_of_mem_splitOn) fun part member => by
    rw [foldersOf, folderOf, components_joined slashless] at member
    have within : part ∈ (components before).dropLast := by grind
    exact ⟨normal part (List.mem_of_mem_dropLast within), slashless part within⟩
  have some : stop ≠ [] := by
    rintro rfl
    exact below rfl
  rw [Normalized, components_joined fun name member => (names name member).2, if_neg some]
  exact fun name member => (names name member).1

theorem resolve_trimHere (source : Path) (target : Text) :
    resolve source (trimHere target) = resolve source target := by
  induction target using trimHere.induct with
  | case1 rest ih =>
      rw [trimHere, ih]
      simp [resolve, components, List.splitOn_cons_eq_if_modifyHead, follow]
  | case2 text => rw [trimHere]; assumption

/-- A link of a moved engram lands where it did before, and one to the engram itself on
the moved one. -/
theorem rebased_link_lands (normalBefore : Normalized before) (normalAfter : Normalized after)
    (isNote : isUnderAssets target = false) (landed : resolve before target = some path)
    (below : path ≠ []) :
    resolve after ((rebase before after target).getD target) =
      some (if path = before then after else path) := by
  have normal : Normalized (if path = before then after else path) := by
    split
    · exact normalAfter
    · exact normalized_of_resolve normalBefore landed below
  have lands := resolve_relativeTo after normal
  have same := resolve_trimHere after target
  unfold rebase
  grind

theorem rebased_link_lands_plans :
    resolve "plans/old/a.md".toList ((rebase "notes/a.md".toList "plans/old/a.md".toList
      "../plans/b.md".toList).getD "../plans/b.md".toList) = some "plans/b.md".toList := by
  have before : Normalized "notes/a.md".toList := by unfold Normalized IsName; decide
  have after : Normalized "plans/old/a.md".toList := by unfold Normalized IsName; decide
  have landed : resolve "notes/a.md".toList "../plans/b.md".toList =
      some "plans/b.md".toList := rfl
  exact rebased_link_lands before after rfl landed (by decide)

end Crystalline.Links.Relative
