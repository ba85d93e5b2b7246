import Crystalline.Base.PublicBase

/-!
# The two readers of a base address

The hand-written reader cuts the text as it is written, at the first `://` and
then at the first slash.  The url parser skips every slash behind the scheme's
colon and takes the host from there.  `readsAlike` tells the addresses on which
both come to the same path.
-/

namespace Crystalline.Base

open Text Whatwg

/-- The base path is the path of the url, up to one slash at its end. -/
def SamePath (base : BasePath) (path : Text) : Prop := withoutEndSlash path = base.asStr

/-- The address starts with a slash where the url parser reads it. -/
def leadsWithSlash (address : Text) : Bool := (tidyEnd address).head? = some '/'

/-- What stands before the first slash, as the url parser reads it. -/
def firstPiece (address : Text) : Text := (tidyEnd address).takeWhile (· ≠ '/')

/-- The condition where the first `://` is not the scheme's own: `early` stands
between the scheme's colon and that `://`, `after` behind it.  The host is read
from `early`, so `after` is the path's second half, or behind its end. -/
def laterReadsAlike (early after : Text) : Bool :=
  let address := afterSlashes (withoutBreaks early)
  if address.any endsPath then
    withoutEndSlash (pathOf (address.dropWhile fun char => !endsAuthority char)) =
      withoutEndSlash (after.dropWhile (· ≠ '/'))
  else !address.any endsAuthority && isDoubleDot (firstPiece after)

/-- Whether the two readers come to the same path: the host stands directly
behind the scheme's `://`, or behind its colon where there is no `://`. -/
def readsAlike (text : Text) : Bool :=
  match splitOnce [':'] text with
  | none => false
  | some (scheme, address) =>
      match splitOnce "://".toList text with
      | none => !leadsWithSlash address
      | some (before, after) =>
          if before = scheme then !leadsWithSlash after
          else laterReadsAlike (before.drop (scheme.length + 1)) after

section Written

variable {text : Text} {base : BasePath} {host piece : Text} {pieces : List Text}

theorem endsAuthority_eq_cutsHost {char : Char} (notBackslash : char ≠ '\\') :
    endsAuthority char = cutsHost char := by
  simp [endsAuthority, isSlash, endsPath, cutsHost, notBackslash]

theorem mem_of_mem_afterScheme {char : Char} (member : char ∈ afterScheme text) :
    char ∈ text := by
  unfold afterScheme at member
  split at member
  next parts cut =>
    rw [(splitOnce_eq_some_iff.mp cut).1]
    exact List.mem_append_right _ member
  · exact member

theorem BasePath.ofUrl_ok (parsed : BasePath.ofUrl text = .ok base) :
    '\\' ∉ trim text ∧
      ∃ host pieces, afterScheme (trim text) = host ++ joined '/' pieces ∧ IsUncut host ∧
        IsWritten pieces base := by
  unfold BasePath.ofUrl at parsed
  dsimp only at parsed
  split at parsed
  · cases parsed
  next noBackslash =>
    split at parsed
    · cases parsed
    next =>
      obtain ⟨pieces, tail, written⟩ := BasePath.parse_ok parsed
      refine ⟨noBackslash, (afterScheme (trim text)).takeWhile fun char => !cutsHost char,
        pieces, ?_, ?_, written⟩
      · rw [← tail, writtenTail, List.takeWhile_append_dropWhile]
      · intro char member
        have inside : char ∈ trim text :=
          mem_of_mem_afterScheme ((List.takeWhile_prefix _).subset member)
        have notBackslash : char ≠ '\\' := fun same => noBackslash (same ▸ inside)
        rw [endsAuthority_eq_cutsHost notBackslash]
        simpa using List.mem_takeWhile_imp member

theorem IsWritten.visible (written : IsWritten pieces base) :
    ∀ char ∈ joined '/' pieces, isC0ControlOrSpace char = false := by
  obtain ⟨segments, same, -, every⟩ := written.segments
  intro char member
  obtain ⟨inside, insideMember, held⟩ := List.mem_flatMap.mp member
  rcases List.mem_cons.mp held with rfl | held
  · decide
  · have segment : inside ∈ segments := by
      rcases same with rfl | rfl
      · exact insideMember
      · rcases List.mem_append.mp insideMember with segment | last
        · exact segment
        · rw [List.mem_singleton.mp last] at held
          cases held
    exact visible_of_isSegmentChar ((every inside segment).chars char held)

theorem tidyEnd_written (uncut : IsUncut host) (written : IsWritten pieces base) :
    ∃ piece, IsUncut piece ∧
      tidyEnd (host ++ joined '/' pieces) = piece ++ joined '/' pieces := by
  cases pieces with
  | nil =>
      refine ⟨tidyEnd host, fun char member => uncut char (mem_of_mem_tidyEnd member), ?_⟩
      simp
  | cons first pieces =>
      refine ⟨withoutBreaks host,
        fun char member => uncut char (mem_of_mem_withoutBreaks member), ?_⟩
      have visible := written.visible
      rw [joined_cons, List.cons_append] at visible ⊢
      rw [tidyEnd_append_cons (by decide), tidyEnd_of_visible]
      exact fun char member => visible char (List.mem_cons_of_mem _ member)

section

variable (uncut : IsUncut piece)
include uncut

theorem head_ne_slash (notEmpty : piece ≠ []) (tail : Text) :
    ∀ char, (piece ++ tail).head? = some char → endsAuthority char = false := by
  intro char head
  cases piece with
  | nil => exact absurd rfl notEmpty
  | cons first piece =>
      cases head
      exact uncut _ List.mem_cons_self

theorem takeWhile_piece : (piece ++ joined '/' pieces).takeWhile (· ≠ '/') = piece := by
  have through : ∀ char ∈ piece, decide (char ≠ '/') = true := by
    intro char member
    rw [decide_eq_true_eq]
    rintro rfl
    exact absurd (uncut _ member) (by decide)
  rw [List.takeWhile_append_of_pos through]
  cases pieces with
  | nil => simp
  | cons first pieces => simp

theorem dropWhile_piece : (piece ++ joined '/' pieces).dropWhile (· ≠ '/') = joined '/' pieces := by
  have through : ∀ char ∈ piece, decide (char ≠ '/') = true := by
    intro char member
    rw [decide_eq_true_eq]
    rintro rfl
    exact absurd (uncut _ member) (by decide)
  rw [List.dropWhile_append_of_pos through]
  cases pieces with
  | nil => simp
  | cons first pieces => simp

end

theorem samePath_pathOf (written : IsWritten pieces base) :
    SamePath base (pathOf (joined '/' pieces)) := by
  cases pieces with
  | nil => exact written.withoutEndSlash
  | cons first pieces =>
      rw [SamePath, pathOf_joined (by simp) written.isUncut, resolve_plain written.isPlain,
        List.nil_append]
      exact written.withoutEndSlash

theorem joined_head (pieces : List Text) :
    ∀ char, (joined '/' pieces).head? = some char → endsAuthority char = true := by
  intro char head
  cases pieces with
  | nil => cases head
  | cons first pieces =>
      cases head
      decide

end Written

section Directly

variable {base : BasePath} {piece : Text} {pieces : List Text}

/-- With a host in front, the path is the written one; without one, its first
segment becomes the host. -/
theorem samePath_directly (uncut : IsUncut piece) (written : IsWritten pieces base)
    (authority : authorityOf (piece ++ joined '/' pieces) ≠ []) :
    SamePath base (pathOf (afterAuthority (piece ++ joined '/' pieces))) ↔
      (piece ++ joined '/' pieces).head? ≠ some '/' := by
  by_cases empty : piece = []
  · subst empty
    rw [List.nil_append] at authority ⊢
    cases pieces with
    | nil => exact absurd rfl authority
    | cons first pieces =>
        refine iff_of_false ?_ (by simp)
        have slashes : afterSlashes (joined '/' (first :: pieces)) =
            afterSlashes (first ++ joined '/' pieces) := rfl
        rcases written.head with segment | ⟨rfl, rfl⟩
        · have noSlash := afterSlashes_of_head fun char head =>
            (Bool.or_eq_false_iff.mp (head_ne_slash segment.isUncut segment.notEmpty
              (joined '/' pieces) char head)).1
          rw [noSlash] at slashes
          rw [(authorityOf_append segment.isUncut (joined_head pieces) slashes).2]
          intro same
          have kept : withoutEndSlash (joined '/' (first :: pieces)) = base.asStr :=
            written.withoutEndSlash
          cases pieces with
          | nil =>
              have root : base.asStr = [] := by rw [← same]; rfl
              have whole : joined '/' [first] = '/' :: first := by simp
              rw [root, whole, ← List.singleton_append,
                withoutEndSlash_append _ segment.notEmpty] at kept
              cases kept
          | cons second pieces =>
              have plain := fun later member =>
                written.isPlain later (List.mem_cons_of_mem _ member)
              have uncutLater := fun later member =>
                written.isUncut later (List.mem_cons_of_mem _ member)
              rw [SamePath, pathOf_joined (by simp) uncutLater, resolve_plain plain, List.nil_append,
                ← kept, joined_cons '/' first, withoutEndSlash_append _ (by simp)] at same
              have lengths := congrArg List.length same
              rw [List.length_append, List.length_cons] at lengths
              omega
        · exact absurd rfl authority
  · refine iff_of_true ?_ ?_
    · have noSlash := afterSlashes_of_head fun char head =>
        (Bool.or_eq_false_iff.mp (head_ne_slash uncut empty (joined '/' pieces) char head)).1
      rw [(authorityOf_append uncut (joined_head pieces) noSlash).2]
      exact samePath_pathOf written
    · intro head
      exact absurd (head_ne_slash uncut empty _ '/' head) (by decide)

end Directly

section Later

variable {base : BasePath} {early piece : Text} {pieces : List Text}

theorem afterSlashes_later (early after : Text) :
    afterSlashes (early ++ ':' :: after) = afterSlashes early ++ ':' :: after := by
  rw [afterSlashes, afterSlashes, List.dropWhile_append]
  split
  · next empty =>
      rw [List.isEmpty_iff.mp empty]
      rfl
  · rfl

theorem IsWritten.asStr_ne (written : IsWritten pieces base) (next : Text) (rest : List Text) :
    Base.withoutEndSlash (joined '/' ([] :: next :: rest)) ≠ base.asStr := by
  have shifted : joined '/' ([] :: next :: rest) = ['/'] ++ joined '/' (next :: rest) := rfl
  rw [shifted, withoutEndSlash_append _ (by simp)]
  obtain ⟨segments, -, kept, every⟩ := written.segments
  intro same
  rw [kept] at same
  cases segments with
  | nil => cases same
  | cons segment segments =>
      have written := every segment List.mem_cons_self
      have tail : Base.withoutEndSlash (joined '/' (next :: rest)) =
          segment ++ joined '/' segments := by simpa using same
      have starts := withoutEndSlash_prefix (joined '/' (next :: rest))
      rw [tail] at starts
      obtain ⟨char, chars, rfl⟩ := List.exists_cons_of_ne_nil written.notEmpty
      have slash : char = '/' := by
        obtain ⟨after, whole⟩ := starts
        exact (List.cons.inj whole).1
      exact absurd (written.chars char List.mem_cons_self) (by rw [slash]; decide)

/-- With nothing but a host before the later `://`, the path starts with an
empty segment, which only a double-dot segment takes away. -/
theorem samePath_host (hostUncut : IsUncut (afterSlashes early)) (uncut : IsUncut piece)
    (written : IsWritten pieces base) :
    SamePath base
        (pathOf (afterAuthority (early ++ "://".toList ++ (piece ++ joined '/' pieces)))) ↔
      isDoubleDot piece = true := by
  have whole : afterSlashes (early ++ "://".toList ++ (piece ++ joined '/' pieces)) =
      (afterSlashes early ++ [':']) ++ joined '/' ([] :: piece :: pieces) := by
    have cut := afterSlashes_later early ("//".toList ++ (piece ++ joined '/' pieces))
    simpa using cut
  have authorityUncut : IsUncut (afterSlashes early ++ [':']) := by
    intro char member
    rcases List.mem_append.mp member with host | colon
    · exact hostUncut char host
    · rw [List.mem_singleton.mp colon]
      decide
  have everyUncut : ∀ inside ∈ [] :: piece :: pieces, IsUncut inside := by
    intro inside member
    rcases List.mem_cons.mp member with rfl | member
    · simp [IsUncut]
    · rcases List.mem_cons.mp member with rfl | member
      · exact uncut
      · exact written.isUncut inside member
  rw [(authorityOf_append authorityUncut (joined_head _) whole).2, pathOf_joined (by simp) everyUncut]
  have first : resolve [] ([] :: piece :: pieces) = resolve ([] ++ [[]]) (piece :: pieces) := rfl
  rw [first]
  cases dots : isDoubleDot piece with
  | true =>
      refine iff_of_true ?_ rfl
      rw [resolve_doubleDot dots written.isPlain, List.nil_append]
      split
      next empty =>
        have kept := written.withoutEndSlash
        rw [empty] at kept
        exact kept
      · exact written.withoutEndSlash
  | false =>
      refine iff_of_false ?_ Bool.false_ne_true
      obtain ⟨next, rest, resolved⟩ := resolve_not_doubleDot dots written.isPlain ([] ++ [[]])
      rw [resolved]
      exact written.asStr_ne next rest

theorem not_samePath_of_colon (written : IsWritten pieces base) {path : Text}
    (colon : ':' ∈ path) : ¬ SamePath base path := by
  intro same
  obtain ⟨segments, -, kept, every⟩ := written.segments
  have member : ':' ∈ base.asStr := by
    rw [← same]
    by_cases ending : ['/'] <:+ path
    · obtain ⟨rest, rfl⟩ := ending
      rw [withoutEndSlash_snoc]
      simpa using colon
    · rwa [withoutEndSlash_of_not_endsWith ending]
  rw [kept] at member
  obtain ⟨segment, inside, held⟩ := List.mem_flatMap.mp member
  rcases List.mem_cons.mp held with slash | held
  · cases slash
  · exact absurd ((every segment inside).chars ':' held) (by decide)

variable {segment : Text}

theorem not_dots_of_colon (colon : ':' ∈ segment) :
    isSingleDot segment = false ∧ isDoubleDot segment = false := by
  have mapped : ':' ∈ segment.map toAsciiLowercase :=
    List.mem_map.mpr ⟨':', colon, by decide⟩
  constructor
  · rw [isSingleDot, decide_eq_false_iff_not]
    intro member
    simp only [List.mem_cons, List.not_mem_nil, or_false] at member
    rcases member with same | same <;>
      · rw [same] at mapped
        exact absurd mapped (by decide)
  · rw [isDoubleDot, decide_eq_false_iff_not]
    intro member
    simp only [List.mem_cons, List.not_mem_nil, or_false] at member
    rcases member with same | same | same | same <;>
      · rw [same] at mapped
        exact absurd mapped (by decide)

theorem colon_mem_kept (colon : ':' ∈ segment) : ':' ∈ kept segment :=
  List.mem_flatMap.mpr ⟨':', colon, by decide⟩

/-- Neither the empty segment after it nor one double-dot segment takes a
segment with a colon away. -/
theorem kept_mem_resolve {before : List Text} (colon : ':' ∈ segment)
    (written : IsWritten pieces base) :
    kept segment ∈ resolve before (segment :: [] :: piece :: pieces) := by
  obtain ⟨single, double⟩ := not_dots_of_colon colon
  have steps : resolve before (segment :: [] :: piece :: pieces) =
      resolve ((before ++ [kept segment]) ++ [[]]) (piece :: pieces) := by
    rw [resolve_cons_cons, double, if_neg Bool.false_ne_true, single,
      if_neg Bool.false_ne_true, resolve_cons_cons]
    rfl
  rw [steps]
  cases dots : isDoubleDot piece with
  | true =>
      rw [resolve_doubleDot dots written.isPlain]
      simp
  | false =>
      obtain ⟨next, rest, resolved⟩ := resolve_not_doubleDot dots written.isPlain
        ((before ++ [kept segment]) ++ [[]])
      rw [resolved]
      simp

/-- Where the authority ends before a query, a path starts. -/
theorem exists_path_of_cut {text : Text} (plain : ∀ char ∈ text, endsPath char = false)
    (cut : ¬ IsUncut text) (noBackslash : '\\' ∉ text) :
    ∃ inside, text = (text.takeWhile fun char => !endsAuthority char) ++ '/' :: inside := by
  have whole := List.takeWhile_append_dropWhile (p := fun char => !endsAuthority char) (l := text)
  cases tail : text.dropWhile fun char => !endsAuthority char with
  | nil =>
      rw [tail, List.append_nil] at whole
      refine absurd ?_ cut
      intro char member
      rw [← whole] at member
      simpa using List.mem_takeWhile_imp member
  | cons head inside =>
      have ends : endsAuthority head = true := by
        have stops := List.head?_dropWhile_not (fun char => !endsAuthority char) text
        rw [tail] at stops
        simpa using stops
      have member : head ∈ text := by
        rw [← whole, tail]
        simp
      have slash : head = '/' := by
        rw [endsAuthority, plain head member, Bool.or_false, isSlash, decide_eq_true_eq] at ends
        rcases List.mem_pair.mp ends with same | same
        · exact same
        · exact absurd (same ▸ member) noBackslash
      rw [tail, slash] at whole
      exact ⟨inside, whole.symm⟩

/-- The last piece of a text that ends with a colon has the colon. -/
theorem exists_last_piece (inside : Text) :
    ∃ before last, '/' :: inside ++ [':'] = joined '/' (before ++ [last]) ∧ ':' ∈ last ∧
      ∀ segment ∈ before ++ [last], ∀ char ∈ segment, char ∈ inside ++ [':'] ∧ char ≠ '/' := by
  have whole := joined_splitMatches '/' (inside ++ [':'])
  obtain ⟨before, last, pieces⟩ : ∃ before last,
      splitMatches (· == '/') (inside ++ [':']) = before ++ [last] :=
    ⟨_, _, (List.dropLast_append_getLast (splitMatches_ne_nil _)).symm⟩
  have parts : ∀ segment ∈ before ++ [last], ∀ char ∈ segment,
      char ∈ inside ++ [':'] ∧ char ≠ '/' := by
    intro segment member char held
    rw [← pieces] at member
    have apart := separates_of_mem_splitMatches member char held
    exact ⟨mem_of_mem_splitMatches member held, by simpa using apart⟩
  rw [pieces] at whole
  refine ⟨before, last, whole.symm, ?_, parts⟩
  rw [joined_append, joined_cons, joined_nil, List.append_nil] at whole
  cases last using List.reverseRecOn with
  | nil =>
      have ends : joined '/' before ++ ['/'] = ('/' :: inside) ++ [':'] := whole
      cases (List.append_inj' ends rfl).2
  | append_singleton last char _ =>
      have ends : (joined '/' before ++ '/' :: last) ++ [char] = ('/' :: inside) ++ [':'] := by
        simpa using whole
      have same : char = ':' := by simpa using (List.append_inj' ends rfl).2
      simp [same]

/-- A path before the later `://` keeps its last segment, which ends with the
colon. -/
theorem not_samePath_path (plain : ∀ char ∈ afterSlashes early, endsPath char = false)
    (cut : ¬ IsUncut (afterSlashes early)) (noBackslash : '\\' ∉ early)
    (uncut : IsUncut piece) (written : IsWritten pieces base) :
    ¬ SamePath base
        (pathOf (afterAuthority (early ++ "://".toList ++ (piece ++ joined '/' pieces)))) := by
  have host : IsUncut ((afterSlashes early).takeWhile fun char => !endsAuthority char) := by
    intro char member
    simpa using List.mem_takeWhile_imp member
  have clean : '\\' ∉ afterSlashes early := fun member =>
    noBackslash ((List.dropWhile_suffix _).subset member)
  obtain ⟨inside, split⟩ := exists_path_of_cut plain cut clean
  obtain ⟨before, last, segments, colon, parts⟩ := exists_last_piece inside
  have whole : afterSlashes (early ++ "://".toList ++ (piece ++ joined '/' pieces)) =
      ((afterSlashes early).takeWhile fun char => !endsAuthority char) ++
        joined '/' (before ++ last :: [] :: piece :: pieces) := by
    have tail : joined '/' (before ++ last :: [] :: piece :: pieces) =
        ('/' :: inside ++ [':']) ++ ("//".toList ++ (piece ++ joined '/' pieces)) := by
      rw [segments, joined_append, joined_append]
      simp
    have later := afterSlashes_later early ("//".toList ++ (piece ++ joined '/' pieces))
    have address : early ++ "://".toList ++ (piece ++ joined '/' pieces) =
        early ++ ':' :: ("//".toList ++ (piece ++ joined '/' pieces)) := by simp
    rw [tail, address, later]
    nth_rewrite 1 [split]
    simp
  have everyUncut : ∀ segment ∈ before ++ last :: [] :: piece :: pieces, IsUncut segment := by
    have inner : ∀ segment ∈ before ++ [last], IsUncut segment := by
      intro segment member char held
      obtain ⟨place, noSlash⟩ := parts segment member char held
      rcases List.mem_append.mp place with place | colon
      · have inEarly : char ∈ afterSlashes early := by
          rw [split]
          exact List.mem_append_right _ (List.mem_cons_of_mem _ place)
        have noBackslash : char ≠ '\\' := fun same => clean (same ▸ inEarly)
        rw [endsAuthority, plain char inEarly, isSlash]
        simp [noSlash, noBackslash]
      · rw [List.mem_singleton.mp colon]
        decide
    intro segment member
    rcases List.mem_append.mp member with before | member
    · exact inner segment (List.mem_append_left _ before)
    · simp only [List.mem_cons] at member
      rcases member with rfl | rfl | rfl | later
      · exact inner _ (List.mem_append_right _ (List.mem_singleton.mpr rfl))
      · simp [IsUncut]
      · exact uncut
      · exact written.isUncut segment later
  apply not_samePath_of_colon written
  rw [(authorityOf_append host (joined_head _) whole).2, pathOf_joined (by simp) everyUncut]
  obtain ⟨path, resolved⟩ := resolve_append before [] last ([] :: piece :: pieces)
  rw [resolved]
  exact List.mem_flatMap.mpr ⟨_, kept_mem_resolve colon written,
    List.mem_cons_of_mem _ (colon_mem_kept colon)⟩

/-- A query before the later `://` ends the path the url parser reads. -/
theorem pathOf_query (query : (afterSlashes early).any endsPath = true) (after : Text) :
    pathOf (afterAuthority (early ++ "://".toList ++ after)) =
      pathOf ((afterSlashes early).dropWhile fun char => !endsAuthority char) := by
  have address : early ++ "://".toList ++ after = early ++ ':' :: ("//".toList ++ after) := by
    simp
  obtain ⟨char, member, ends⟩ := List.any_eq_true.mp query
  have behind : char ∈ (afterSlashes early).dropWhile fun char => !endsAuthority char := by
    rw [← List.takeWhile_append_dropWhile (p := fun char => !endsAuthority char)
      (l := afterSlashes early)] at member
    rcases List.mem_append.mp member with host | behind
    · have inHost := List.mem_takeWhile_imp host
      rw [endsAuthority, ends, Bool.or_true] at inHost
      cases inHost
    · exact behind
  have notEmpty : ((afterSlashes early).dropWhile fun char => !endsAuthority char).isEmpty =
      false := List.isEmpty_eq_false_iff.mpr (List.ne_nil_of_mem behind)
  have cut : (((afterSlashes early).dropWhile fun char => !endsAuthority char).takeWhile
      fun char => !endsPath char).length ≠
        ((afterSlashes early).dropWhile fun char => !endsAuthority char).length := by
    intro same
    have whole := (List.takeWhile_prefix _).eq_of_length same
    rw [List.takeWhile_eq_self_iff] at whole
    have stays := whole char behind
    rw [ends] at stays
    cases stays
  rw [afterAuthority, address, afterSlashes_later, List.dropWhile_append, notEmpty,
    if_neg Bool.false_ne_true, pathOf, List.takeWhile_append, if_neg cut]
  rfl

end Later

end Crystalline.Base
