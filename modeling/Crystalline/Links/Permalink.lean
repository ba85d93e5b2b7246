import Crystalline.Text.Ends
import Crystalline.Text.Lowercase
import Crystalline.Text.Pieces
import Crystalline.Text.Trim

/-!
# Permalinks

A permalink is the slug of a path: segments of small letters, digits and hyphens, none
empty and none with a hyphen at an end.  A slug is its own slug, so a permalink is
accepted where slugifying it changes nothing.
-/

namespace Crystalline.Links

open Text

def scheme : Text := "crystalline://".toList

def assetsPrefix : Text := "assets/".toList

/-- What a slug keeps. -/
def keeps (char : Char) : Bool :=
  isAsciiLowercase char || isAsciiDigit char || char = '/' || char = '-'

/-- Every run of other characters before a kept one becomes one hyphen. -/
def collapseFrom (pendingHyphen : Bool) : Text → Text
  | [] => []
  | char :: text =>
      if keeps char then
        (if pendingHyphen then ['-'] else []) ++ char :: collapseFrom false text
      else collapseFrom true text

/-- The path without its extension. -/
def dropExtension (path : Text) : Text :=
  match stripSuffix ".md".toList path with
  | some stem => stem
  | none => (stripSuffix ".MD".toList path).getD path

def slugify (lower : Lowercase) (path : Text) : Text :=
  let lowered := lower.ofText (dropExtension path)
  let collapsed := collapseFrom false lowered
  ['/'].intercalate
    (((splitMatches (· == '/') collapsed).map trimHyphens).filter (!·.isEmpty))

/-- Why a text cannot be a permalink, or nothing. -/
def validatePermalink (lower : Lowercase) (permalink : Text) : Except Text Unit :=
  if (trim permalink).isEmpty then .error "the permalink is empty".toList
  else if startsWith permalink scheme then
    .error ("'".toList ++ permalink ++ ("' is an absolute address; a permalink is " ++
      "domain-relative, so drop the ").toList ++ scheme ++ "<domain>/ part".toList)
  else if contains permalink [':'] then
    .error ("'".toList ++ permalink ++ ("' carries a domain prefix; a permalink is " ++
      "domain-relative and never names its domain").toList)
  else if slugify lower permalink ≠ permalink then
    .error (if (slugify lower permalink).isEmpty then
        "'".toList ++ permalink ++
          "' does not slugify to a permalink; use letters or digits".toList
      else
        "'".toList ++ permalink ++ ("' is not a permalink: use lowercase letters, digits, " ++
          "'-' and '/' only, for example '").toList ++ slugify lower permalink ++ "'".toList)
  else if startsWith permalink assetsPrefix then
    .error ("'".toList ++ permalink ++ ("' cannot be a permalink: it sits under the " ++
      "reserved ").toList ++ assetsPrefix ++ (" folder, which holds attachments and never " ++
      "an engram").toList)
  else .ok ()

/-- A segment of small letters, digits and hyphens, with no hyphen at an end. -/
structure IsSegment (segment : Text) : Prop where
  nonempty : segment ≠ []
  kept : ∀ char ∈ segment, keeps char = true ∧ char ≠ '/'
  first : segment.head? ≠ some '-'
  last : segment.getLast? ≠ some '-'

/-- Segments with a slash between each two. -/
def IsSlug (text : Text) : Prop :=
  ∃ segments, (∀ segment ∈ segments, IsSegment segment) ∧ text = ['/'].intercalate segments

variable {text : Text} {char : Char}

theorem mem_collapseFrom {pendingHyphen : Bool} (member : char ∈ collapseFrom pendingHyphen text) :
    keeps char = true := by
  induction text generalizing pendingHyphen with
  | nil => cases member
  | cons head text induction =>
      rw [collapseFrom] at member
      split at member
      · rename_i kept
        rcases List.mem_append.mp member with hyphen | rest
        · split at hyphen
          · rw [List.mem_singleton.mp hyphen]
            rfl
          · cases hyphen
        · rcases List.mem_cons.mp rest with rfl | later
          · exact kept
          · exact induction later
      · exact induction member

theorem collapseFrom_eq_self (kept : ∀ char ∈ text, keeps char = true) :
    collapseFrom false text = text := by
  induction text with
  | nil => rfl
  | cons char text induction =>
      rw [collapseFrom, if_pos (kept char List.mem_cons_self),
        induction fun later member => kept later (List.mem_cons_of_mem _ member)]
      rfl

theorem isSlug_slugify (lower : Lowercase) (path : Text) : IsSlug (slugify lower path) := by
  refine ⟨_, fun segment member => ?_, rfl⟩
  obtain ⟨among, present⟩ := List.mem_filter.mp member
  obtain ⟨piece, cut, rfl⟩ := List.mem_map.mp among
  have nonempty : trimHyphens piece ≠ [] := by simpa using present
  constructor
  · exact nonempty
  · intro char inside
    have within : char ∈ piece :=
      (List.dropWhile_sublist _).subset ((List.rdropWhile_prefix _ _).sublist.subset inside)
    constructor
    · exact mem_collapseFrom (mem_of_mem_splitMatches cut within)
    · have apart := separates_of_mem_splitMatches cut char within
      simpa using apart
  · intro found
    have other := Ends.not_of_head?_rdropWhile found
    exact absurd other (by decide)
  · intro found
    have other := Ends.not_of_getLast?_rdropWhile found
    exact absurd other (by decide)

theorem intercalate_cons (between : Char) (segment : Text) (segments : List Text) :
    [between].intercalate (segment :: segments) = segment ++ joined between segments := by
  induction segments generalizing segment with
  | nil => simp
  | cons next segments induction => rw [List.intercalate_cons_cons, induction]; simp

theorem splitMatches_intercalate {segments : List Text} (present : segments ≠ [])
    (isSegment : ∀ segment ∈ segments, IsSegment segment) :
    splitMatches (· == '/') (['/'].intercalate segments) = segments := by
  obtain ⟨segment, segments, rfl⟩ := List.exists_cons_of_ne_nil present
  rw [intercalate_cons]
  apply splitMatches_joined
  intro other among member
  exact ((isSegment other among).kept '/' member).2 rfl

theorem IsSlug.kept (isSlug : IsSlug text) : ∀ char ∈ text, keeps char = true := by
  obtain ⟨segments, isSegment, rfl⟩ := isSlug
  intro char member
  cases segments with
  | nil => cases member
  | cons segment segments =>
      rw [intercalate_cons] at member
      rcases List.mem_append.mp member with first | rest
      · exact ((isSegment segment List.mem_cons_self).kept char first).1
      · obtain ⟨other, among, inside⟩ := List.mem_flatMap.mp rest
        rcases List.mem_cons.mp inside with rfl | within
        · rfl
        · exact ((isSegment other (List.mem_cons_of_mem _ among)).kept char within).1

theorem ofChar_of_keeps (lower : Lowercase) (kept : keeps char = true) :
    lower.ofChar char = [char] ∧ char ≠ 'Σ' := by
  have small : char.toNat < 0x80 ∧ ¬ (0x41 ≤ char.toNat ∧ char.toNat ≤ 0x5A) := by
    simp only [keeps, isAsciiLowercase, isAsciiDigit, Bool.or_eq_true, Bool.and_eq_true,
      decide_eq_true_eq] at kept
    rcases kept with ((letter | digit) | rfl) | rfl
    · omega
    · omega
    · decide
    · decide
  refine ⟨?_, ?_⟩
  · rw [lower.ascii char small.1, Lowercase.toLower_of_not_upper small.2]
  · rintro rfl
    exact absurd small.1 (by decide)

theorem ofTextFrom_of_keeps (lower : Lowercase) (kept : ∀ char ∈ text, keeps char = true)
    (before : Text) : lower.ofTextFrom before text = text := by
  induction text generalizing before with
  | nil => rfl
  | cons char text induction =>
      obtain ⟨same, other⟩ := ofChar_of_keeps lower (kept char List.mem_cons_self)
      rw [Lowercase.ofTextFrom, if_neg other, same,
        induction fun later member => kept later (List.mem_cons_of_mem _ member)]
      rfl

theorem dropExtension_of_keeps (kept : ∀ char ∈ text, keeps char = true) :
    dropExtension text = text := by
  have without {extension : Text} (dotted : '.' ∈ extension) :
      stripSuffix extension text = none := by
    cases found : stripSuffix extension text with
    | none => rfl
    | some stem =>
        have same := stripSuffix_eq_some_iff.mp found
        have dot := kept '.' (by rw [same]; exact List.mem_append_right _ dotted)
        exact absurd dot (by decide)
  rw [dropExtension, without (by decide), without (by decide)]
  rfl

theorem slugify_of_isSlug (lower : Lowercase) (isSlug : IsSlug text) :
    slugify lower text = text := by
  have kept := isSlug.kept
  rw [slugify, dropExtension_of_keeps kept, Lowercase.ofText, ofTextFrom_of_keeps lower kept,
    collapseFrom_eq_self kept]
  obtain ⟨segments, isSegment, rfl⟩ := isSlug
  by_cases none : segments = []
  · subst none
    rfl
  · rw [splitMatches_intercalate none isSegment,
      List.map_congr_left fun segment among => trimHyphens_eq_self (isSegment segment among).first
        (isSegment segment among).last,
      List.map_id', List.filter_eq_self.mpr]
    intro segment among
    simpa using (isSegment segment among).nonempty

theorem not_whitespace_of_keeps (kept : keeps char = true) : isWhitespace char = false := by
  simp only [keeps, isAsciiLowercase, isAsciiDigit, Bool.or_eq_true, Bool.and_eq_true,
    decide_eq_true_eq] at kept
  rcases kept with ((letter | digit) | rfl) | rfl
  · simp [isWhitespace]
    omega
  · simp [isWhitespace]
    omega
  · decide
  · decide

/-- A permalink is accepted exactly where it is a slug, not the empty one, outside the
folder of the attachments. -/
theorem validatePermalink_iff (lower : Lowercase) {permalink : Text} :
    validatePermalink lower permalink = .ok () ↔
      IsSlug permalink ∧ permalink ≠ [] ∧ startsWith permalink assetsPrefix = false := by
  unfold validatePermalink
  constructor
  · intro accepted
    split at accepted
    · cases accepted
    rename_i present
    split at accepted
    · cases accepted
    split at accepted
    · cases accepted
    split at accepted
    · cases accepted
    rename_i same
    split at accepted
    · cases accepted
    rename_i outside
    refine ⟨?_, ?_, Bool.eq_false_iff.mpr outside⟩
    · have isSlug := isSlug_slugify lower permalink
      rwa [not_not.mp same] at isSlug
    · rintro rfl
      exact present rfl
  · rintro ⟨isSlug, nonempty, outside⟩
    have kept := isSlug.kept
    have colonless : ':' ∉ permalink := fun member => absurd (kept ':' member) (by decide)
    have present : (trim permalink).isEmpty = false := by
      rw [List.isEmpty_eq_false_iff]
      intro blank
      obtain ⟨char, rest, rfl⟩ := List.exists_cons_of_ne_nil nonempty
      have white := trim_eq_nil_iff.mp blank char List.mem_cons_self
      rw [not_whitespace_of_keeps (kept char List.mem_cons_self)] at white
      cases white
    have relative : startsWith permalink scheme = false := by
      rw [Bool.eq_false_iff]
      intro starts
      obtain ⟨rest, same⟩ := startsWith_iff.mp starts
      apply colonless
      rw [← same]
      exact List.mem_append_left _ (by decide)
    have undomained : contains permalink [':'] = false := by
      rw [Bool.eq_false_iff]
      intro holds
      obtain ⟨before, after, same⟩ := contains_iff.mp holds
      apply colonless
      rw [← same]
      simp
    rw [if_neg (by rw [present]; decide), if_neg (by rw [relative]; decide),
      if_neg (by rw [undomained]; decide),
      if_neg (not_not.mpr (slugify_of_isSlug lower isSlug)), if_neg (by rw [outside]; decide)]

/-- Slugs are fixed points and, but for the empty one and those of attachments, the
permalinks that are accepted; their segments are never empty and have no hyphen at an
end. -/
theorem slugs_are_permalinks (lower : Lowercase) :
    (∀ path, slugify lower (slugify lower path) = slugify lower path ∧
      (slugify lower path = [] ∨ startsWith (slugify lower path) assetsPrefix = true ∨
        validatePermalink lower (slugify lower path) = .ok ())) ∧
    ∀ permalink, validatePermalink lower permalink = .ok () →
      slugify lower permalink = permalink ∧
        ∀ segment ∈ splitMatches (· == '/') permalink,
          segment ≠ [] ∧ segment.head? ≠ some '-' ∧ segment.getLast? ≠ some '-' := by
  refine ⟨fun path => ?_, fun permalink accepted => ?_⟩
  · have isSlug := isSlug_slugify lower path
    refine ⟨slugify_of_isSlug lower isSlug, ?_⟩
    by_cases empty : slugify lower path = []
    · exact .inl empty
    cases under : startsWith (slugify lower path) assetsPrefix with
    | true => exact .inr (.inl rfl)
    | false => exact .inr (.inr ((validatePermalink_iff lower).mpr ⟨isSlug, empty, under⟩))
  · obtain ⟨isSlug, nonempty, -⟩ := (validatePermalink_iff lower).mp accepted
    refine ⟨slugify_of_isSlug lower isSlug, ?_⟩
    obtain ⟨segments, isSegment, rfl⟩ := isSlug
    have present : segments ≠ [] := by
      rintro rfl
      exact nonempty rfl
    rw [splitMatches_intercalate present isSegment]
    intro segment among
    have own := isSegment segment among
    exact ⟨own.nonempty, own.first, own.last⟩

theorem slugs_are_permalinks_guide :
    slugify .simple "guides/set-up".toList = "guides/set-up".toList ∧
      validatePermalink .simple "guides/set-up".toList = .ok () := by
  have accepted : validatePermalink .simple "guides/set-up".toList = .ok () := by decide
  exact ⟨((slugs_are_permalinks .simple).2 _ accepted).1, accepted⟩

/-- What is lost on the way to a slug. -/
example : slugify .simple "Guides/ Set  Up!/--x-.md".toList = "guides/set-up/x".toList := by
  decide

end Crystalline.Links
