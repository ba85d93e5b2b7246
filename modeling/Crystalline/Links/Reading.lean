import Crystalline.Text.Trim
import Crystalline.Links.Resolve

/-!
# How a written link reads

A wikilink that names an engram whose address changed gets a new target part.  A bracket
text is a name, the `#fragment` after it and the display text after that; a rewrite
exchanges the name alone, and this module says what the text with the new name reads as.
-/

namespace Crystalline.Links

open Text

/-- The address change a set of references has to follow. -/
structure Relink where
  fromDomain : Text
  fromPermalink : Text
  title : Text
  toDomain : Text
  toPermalink : Text
  /-- Whole link texts with a `#` found as another engram's title. -/
  shadowed : List Text

/-- How a wikilink's target text named the engram. -/
inductive Named where
  | permalink
  | title
  deriving DecidableEq

section Folding

variable (toLowercase : Text → Text)

/-- The closure `named` of `relink_wikilink`. -/
def named (spec : Relink) (whole : Option Text) (text : Text) : Option Named :=
  let title := trim spec.title
  if whole.any (fun whole => !title.isEmpty && toLowercase whole == toLowercase title) then
    some .title
  else if text = spec.fromPermalink then some .permalink
  else if !title.isEmpty && toLowercase text == toLowercase title then some .title
  else none

/-- Whether the caller found the link's whole text as another engram's title. -/
def isShadowed (spec : Relink) (whole : Option Text) : Bool :=
  whole.any fun whole =>
    spec.shadowed.any fun other => toLowercase other == toLowercase whole

/-- How the target names the moved engram where it is read, `none` when it points
somewhere else. -/
def namesMoved (spec : Relink) (target : LinkTarget) (readIn : Text) : Option Named :=
  match target.domain with
  | some domain =>
      if domain = spec.fromDomain then named toLowercase spec target.whole target.target
      else none
  | none =>
      if readIn = spec.fromDomain then named toLowercase spec target.whole target.target
      else none

/-- The target text written for a link that named the engram so. -/
def newTarget (spec : Relink) (target : LinkTarget) : Named → Text
  | .permalink => spec.toPermalink
  | .title => target.target

/-- The domain prefix written, if any. -/
def newDomain (spec : Relink) (target : LinkTarget) (writtenIn newTarget : Text) :
    Option Text :=
  match target.domain with
  | some _ =>
      if spec.fromDomain ≠ spec.toDomain ∧ writtenIn = spec.toDomain ∧
          (LinkTarget.parse newTarget).domain = none then none
      else some spec.toDomain
  | none => if writtenIn ≠ spec.toDomain then some spec.toDomain else none

/-- `[domain:]target`. -/
def prefixed : Option Text → Text → Text
  | some domain, target => domain ++ [':'] ++ target
  | none, target => target

def relinkWikilink (inner readIn writtenIn : Text) (spec : Relink) : Option Text :=
  let target := LinkTarget.parse inner
  if isShadowed toLowercase spec target.whole then none
  else
    (namesMoved toLowercase spec target readIn).bind fun how =>
      let text := newTarget spec target how
      let domain := newDomain spec target writtenIn text
      if domain = target.domain ∧ text = target.target then none
      else some (prefixed domain text)

/-- `target_end`: the text of a wikilink before its first `|`. -/
def targetPart (inner : Text) : Text := inner.takeWhile (· ≠ '|')

/-- `fragment_start`, counted from the start of the target part. -/
def fragmentStart (part : Text) : Nat :=
  match splitFragment part with
  | (before, some _) => (trimEnd before).length
  | (_, none) => part.length

/-- What `relink_line` writes between the brackets of a wikilink that reads
`masked` in the mask and `original` in the line. -/
def relinkBracket (masked original readIn writtenIn : Text) (spec : Relink) : Option Text :=
  (relinkWikilink toLowercase (targetPart masked) readIn writtenIn spec).map fun new =>
    new ++ original.drop (fragmentStart (targetPart masked))

end Folding

/-- A domain name or a permalink: nothing in it ends or splits a link target. -/
structure IsName (text : Text) : Prop where
  nonempty : text ≠ []
  plain : ∀ char ∈ text, isWhitespace char = false ∧ char ≠ '#' ∧ char ≠ ':' ∧ char ≠ '|'

instance (text : Text) : Decidable (IsName text) :=
  decidable_of_iff (text ≠ [] ∧ (text.all fun char => decide
      (isWhitespace char = false ∧ char ≠ '#' ∧ char ≠ ':' ∧ char ≠ '|')) = true)
    ⟨fun both => ⟨both.1, forall_mem_of_all both.2⟩, fun name => ⟨name.nonempty,
      List.all_eq_true.mpr fun char member => decide_eq_true (name.plain char member)⟩⟩

namespace IsName

variable {text : Text} (name : IsName text)

include name

theorem trimmed : IsTrimmed text := by
  refine ⟨?_, ?_⟩
  · intro char head
    exact (name.plain char (List.mem_of_mem_head? (by simp [head]))).1
  · intro char last
    exact (name.plain char (List.mem_of_mem_getLast? (by simp [last]))).1

theorem hash_notMem : '#' ∉ text := fun member => (name.plain '#' member).2.1 rfl

theorem colon_notMem : ':' ∉ text := fun member => (name.plain ':' member).2.2.1 rfl

theorem bar_notMem : '|' ∉ text := fun member => (name.plain '|' member).2.2.2 rfl

theorem no_whitespace : text.any isWhitespace = false := by
  rw [List.any_eq_false]
  intro char member
  simp [(name.plain char member).1]

end IsName

theorem prefixOf_eq_none_of_notMem {part : Text} (absent : ':' ∉ part) :
    prefixOf part = none := by
  rw [prefixOf, splitOnce_char_eq_none_iff.mpr absent]

/-- A part with a prefix is the domain, a colon and the target, blanks around
both. -/
theorem prefixOf_eq_some {part domain target : Text}
    (found : prefixOf part = some (domain, target)) :
    ∃ before after, part = before ++ ':' :: after ∧ ':' ∉ before ∧ trim before = domain ∧
      trim after = target ∧ domain ≠ [] ∧ target ≠ [] ∧ domain.any isWhitespace = false := by
  unfold prefixOf at found
  split at found
  · next before after cut =>
      split at found
      · next spaceless =>
          obtain ⟨rfl, rfl⟩ := Prod.mk.inj (Option.some.inj found)
          obtain ⟨whole, absent⟩ := splitOnce_char_eq_some_iff.mp cut
          refine ⟨before, after, whole, absent, rfl, rfl, ?_⟩
          simpa [and_assoc] using spaceless
      · cases found
  · cases found

theorem prefixOf_of_cut {before after : Text} (absent : ':' ∉ before)
    (domainKept : trim before ≠ []) (targetKept : trim after ≠ [])
    (spaceless : (trim before).any isWhitespace = false) :
    prefixOf (before ++ ':' :: after) = some (trim before, trim after) := by
  rw [prefixOf, splitOnce_char_append absent]
  simp [domainKept, targetKept, spaceless]

theorem prefixOf_name {domain target : Text} (name : IsName domain)
    (trimmed : IsTrimmed target) (kept : target ≠ []) :
    prefixOf (domain ++ [':'] ++ target) = some (domain, target) := by
  have cut := prefixOf_of_cut name.colon_notMem
    (by rw [name.trimmed.trim_eq]; exact name.nonempty)
    (show trim target ≠ [] by rw [trimmed.trim_eq]; exact kept)
    (by rw [name.trimmed.trim_eq]; exact name.no_whitespace)
  rw [name.trimmed.trim_eq, trimmed.trim_eq] at cut
  simpa using cut

/-- What stands behind a part with a prefix is read into its target. -/
theorem prefixOf_append {part tail domain target : Text}
    (found : prefixOf part = some (domain, target)) (partTrimmed : IsTrimmed part)
    (tailKept : tail ≠ []) (trimmed : IsTrimmed (part ++ tail)) :
    prefixOf (part ++ tail) = some (domain, target ++ tail) := by
  obtain ⟨before, after, rfl, absent, rfl, rfl, domainKept, targetKept, spaceless⟩ :=
    prefixOf_eq_some found
  have afterStart : trimStart after = trim after := by
    have back : IsTrimmed ((before ++ [':']) ++ after) := by simpa using partTrimmed
    exact back.trim_back.symm
  obtain ⟨lead, leadBlank, shape⟩ := exists_lead after
  rw [afterStart] at shape
  have tailLast : ∀ char, tail.getLast? = some char → isWhitespace char = false := by
    intro char last
    apply trimmed.last char
    rw [List.getLast?_append_of_ne_nil _ tailKept, last]
  have inner : IsTrimmed (trim after ++ tail) :=
    (isTrimmed_trim after).of_append targetKept tailLast
  have behind : trim (after ++ tail) = trim after ++ tail := by
    have whole : IsTrimmed ((before ++ [':']) ++ (after ++ tail)) := by simpa using trimmed
    rw [whole.trim_back]
    calc trimStart (after ++ tail)
        = trimStart (lead ++ (trim after ++ tail)) := by rw [← List.append_assoc, ← shape]
      _ = trimStart (trim after ++ tail) := trimStart_blank_append leadBlank _
      _ = trim after ++ tail := trimStart_of_head inner.head
  have cut := prefixOf_of_cut absent domainKept
    (show trim (after ++ tail) ≠ [] by rw [behind]; simp [targetKept]) spaceless
  rw [behind] at cut
  simpa using cut

/-- Nothing, or the display text behind its bar. -/
def IsDisplay (rest : Text) : Prop := rest = [] ∨ ∃ shown, rest = '|' :: shown

section

variable {part rest : Text} (absent : '|' ∉ part) (display : IsDisplay rest)
include absent display

theorem splitAlias_append : (splitAlias (part ++ rest)).1 = trim part := by
  rcases display with rfl | ⟨shown, rfl⟩
  · rw [List.append_nil, splitAlias, splitOnce_char_eq_none_iff.mpr absent]
  · rw [splitAlias, splitOnce_char_append absent]

theorem targetPart_append : targetPart (part ++ rest) = part := by
  have kept : ∀ char ∈ part, (char ≠ '|' : Bool) = true := by
    intro char member
    have different : char ≠ '|' := fun same => absent (same ▸ member)
    simpa using different
  rcases display with rfl | ⟨shown, rfl⟩
  · rw [List.append_nil, targetPart, List.takeWhile_eq_self_iff]
    simpa using kept
  · rw [targetPart, List.takeWhile_append_of_pos (by simpa using kept)]
    simp

end

theorem exists_display (inner : Text) :
    ∃ rest, inner = targetPart inner ++ rest ∧ '|' ∉ targetPart inner ∧ IsDisplay rest := by
  refine ⟨inner.dropWhile (· ≠ '|'), List.takeWhile_append_dropWhile.symm, ?_, ?_⟩
  · intro member
    have kept := List.mem_takeWhile_imp member
    simp at kept
  · cases shape : inner.dropWhile (· ≠ '|') with
    | nil => exact Or.inl rfl
    | cons char shown =>
        have stops := List.head?_dropWhile_not (· ≠ '|') inner
        rw [shape] at stops
        have isBar : char = '|' := by simpa using stops
        exact Or.inr ⟨shown, by rw [isBar]⟩

theorem splitFragment_of_notMem {part : Text} (absent : '#' ∉ part) :
    splitFragment part = (part, none) := by
  rw [splitFragment, splitOnce_char_eq_none_iff.mpr absent]

variable {before : Text}

theorem splitFragment_cut (absent : '#' ∉ before) (kept : trim before ≠ []) (after : Text) :
    splitFragment (before ++ '#' :: after) = (before, some after) := by
  rw [splitFragment, splitOnce_char_append absent]
  simp [kept]

theorem splitFragment_blank (absent : '#' ∉ before) (blank : trim before = []) (after : Text) :
    splitFragment (before ++ '#' :: after) = (before ++ '#' :: after, none) := by
  rw [splitFragment, splitOnce_char_append absent]
  simp [blank]

/-- A `#` with something other than blanks before it, and what follows it. -/
structure IsFragment (name tail : Text) : Prop where
  kept : name ≠ []
  noHash : '#' ∉ name
  shape : ∃ blank after, tail = blank ++ '#' :: after ∧ IsBlank blank
  trimmed : IsTrimmed (name ++ tail)

/-- A name that no `#` cuts. -/
def IsUncut (name : Text) : Prop := '#' ∉ name ∨ ∃ after, name = '#' :: after

/-- How a bracket text is composed: the name a rewrite replaces, the fragment
text after it and the display text, with the blanks `trim` takes away. -/
structure Composed (inner lead name tail trail rest : Text) : Prop where
  whole : inner = lead ++ (name ++ tail) ++ trail ++ rest
  leadBlank : IsBlank lead
  trailBlank : IsBlank trail
  display : IsDisplay rest
  trimmed : IsTrimmed name
  noBar : '|' ∉ name ++ tail
  fragment : tail = [] ∧ IsUncut name ∨ IsFragment name tail

theorem blank_notMem {blank : Text} (isBlank : IsBlank blank) {char : Char}
    (kept : isWhitespace char = false) : char ∉ blank := by
  intro member
  rw [isBlank char member] at kept
  exact Bool.noConfusion kept

variable {inner lead name tail trail rest : Text}

section

variable (composed : Composed inner lead name tail trail rest)
include composed

theorem Composed.trimmed_name_tail : IsTrimmed (name ++ tail) := by
  rcases composed.fragment with ⟨rfl, -⟩ | fragment
  · simpa using composed.trimmed
  · exact fragment.trimmed

theorem Composed.targetPart_eq :
    targetPart inner = lead ++ (name ++ tail) ++ trail ∧
      (splitAlias inner).1 = name ++ tail := by
  have noBar : '|' ∉ lead ++ (name ++ tail) ++ trail := by
    have leadBar : '|' ∉ lead := blank_notMem composed.leadBlank (by decide)
    have trailBar : '|' ∉ trail := blank_notMem composed.trailBlank (by decide)
    have inside := composed.noBar
    simp only [List.mem_append, not_or] at inside ⊢
    exact ⟨⟨leadBar, inside⟩, trailBar⟩
  rw [composed.whole]
  refine ⟨targetPart_append noBar composed.display, ?_⟩
  rw [splitAlias_append noBar composed.display]
  exact trim_around composed.leadBlank composed.trimmed_name_tail composed.trailBlank

/-- What a rewrite keeps behind the name. -/
theorem Composed.drop_fragmentStart :
    inner.drop (fragmentStart (targetPart inner)) =
      (if tail = [] then rest else tail ++ trail ++ rest) := by
  rw [composed.targetPart_eq.1]
  have leadHash : '#' ∉ lead := blank_notMem composed.leadBlank (by decide)
  have trailHash : '#' ∉ trail := blank_notMem composed.trailBlank (by decide)
  rcases composed.fragment with ⟨rfl, uncut⟩ | fragment
  · have whole := composed.whole
    rw [List.append_nil] at whole ⊢
    have noFragment : (splitFragment (lead ++ name ++ trail)).2 = none := by
      rcases uncut with absent | ⟨after, rfl⟩
      · rw [splitFragment_of_notMem (by simp [leadHash, absent, trailHash])]
      · have blank : trim lead = [] := trim_eq_nil_iff.mpr composed.leadBlank
        have cut := splitFragment_blank leadHash blank (after ++ trail)
        rw [List.append_assoc, List.cons_append, cut]
    have start : fragmentStart (lead ++ name ++ trail) = (lead ++ name ++ trail).length := by
      unfold fragmentStart
      split
      · next some_ => rw [some_] at noFragment; cases noFragment
      · rfl
    rw [start, if_pos rfl, whole, List.drop_left]
  · obtain ⟨blank, after, rfl, isBlank⟩ := fragment.shape
    have blankHash : '#' ∉ blank := blank_notMem isBlank (by decide)
    have nameKept : trim (lead ++ name ++ blank) ≠ [] := by
      rw [trim_around composed.leadBlank composed.trimmed isBlank]
      exact fragment.kept
    have nameHash : '#' ∉ lead ++ name ++ blank := by
      simp [leadHash, fragment.noHash, blankHash]
    have cut := splitFragment_cut nameHash nameKept (after ++ trail)
    have start : fragmentStart (lead ++ (name ++ (blank ++ '#' :: after)) ++ trail) =
        (lead ++ name).length := by
      have shape : lead ++ (name ++ (blank ++ '#' :: after)) ++ trail =
          lead ++ name ++ blank ++ '#' :: (after ++ trail) := by simp
      rw [shape, fragmentStart, cut]
      simp only
      rw [trimEnd_append_blank isBlank, trimEnd_of_last]
      intro char last
      rw [List.getLast?_append_of_ne_nil _ fragment.kept] at last
      exact composed.trimmed.last char last
    rw [start, if_neg (by simp), composed.whole]
    have shape : lead ++ (name ++ (blank ++ '#' :: after)) ++ trail ++ rest =
        (lead ++ name) ++ (blank ++ '#' :: after ++ trail ++ rest) := by simp
    rw [shape, List.drop_left]

end

/-- Every bracket text is composed. -/
theorem exists_composed (inner : Text) :
    ∃ lead name tail trail rest, Composed inner lead name tail trail rest := by
  obtain ⟨rest, innerEq, noBar, display⟩ := exists_display inner
  obtain ⟨lead, trail, leadBlank, trailBlank, partEq⟩ := exists_trim (targetPart inner)
  have trimmed := isTrimmed_trim (targetPart inner)
  have partBar : '|' ∉ trim (targetPart inner) := by
    intro member
    apply noBar
    rw [partEq]
    simp [member]
  generalize trim (targetPart inner) = part at partEq trimmed partBar
  rw [partEq] at innerEq
  by_cases hash : '#' ∈ part
  · obtain ⟨before, after, rfl, absent⟩ := List.eq_append_cons_of_mem hash
    have front := trimmed.trim_front
    by_cases blank : trim before = []
    · have empty : before = [] := by
        cases before with
        | nil => rfl
        | cons char before =>
            have isBlank := isBlank_of_trim_eq_nil blank char (by simp)
            rw [trimmed.head char rfl] at isBlank
            exact Bool.noConfusion isBlank
      subst empty
      exact ⟨lead, '#' :: after, [], trail, rest, by simpa using innerEq, leadBlank,
        trailBlank, display, by simpa using trimmed, by simpa using partBar,
        Or.inl ⟨rfl, Or.inr ⟨after, rfl⟩⟩⟩
    · obtain ⟨spacing, spacingBlank, beforeEq⟩ := exists_trail before
      rw [← front] at beforeEq
      have nameHash : '#' ∉ trim before := by
        intro member
        apply absent
        rw [beforeEq]
        simp [member]
      have nameTrimmed := isTrimmed_trim before
      generalize trim before = name at blank beforeEq nameHash nameTrimmed
      subst beforeEq
      have shape : name ++ spacing ++ '#' :: after = name ++ (spacing ++ '#' :: after) := by
        simp
      rw [shape] at innerEq trimmed partBar
      exact ⟨lead, name, spacing ++ '#' :: after, trail, rest, innerEq, leadBlank, trailBlank,
        display, nameTrimmed, partBar, Or.inr ⟨blank, nameHash,
          ⟨spacing, after, rfl, spacingBlank⟩, trimmed⟩⟩
  · exact ⟨lead, part, [], trail, rest, by simpa using innerEq, leadBlank, trailBlank, display,
      trimmed, by simpa using partBar, Or.inl ⟨rfl, Or.inl hash⟩⟩

/-- What a composed text reads as: the prefix and the target come from the name
alone, and the whole text is the target with the fragment text. -/
theorem Composed.reads (composed : Composed inner lead name tail trail rest) :
    (LinkTarget.parse inner).domain = (prefixOf name).map Prod.fst ∧
      (LinkTarget.parse inner).target = ((prefixOf name).map Prod.snd).getD name ∧
      (LinkTarget.parse inner).whole =
        if tail = [] ∨ prefixOf name = none ∧ prefixOf (name ++ tail) ≠ none then none
        else some ((LinkTarget.parse inner).target ++ tail) := by
  rw [LinkTarget.parse, composed.targetPart_eq.2]
  generalize (splitAlias inner).2 = aliasText
  rcases composed.fragment with ⟨rfl, uncut⟩ | fragment
  · have noFragment : splitFragment name = (name, none) := by
      rcases uncut with absent | ⟨after, rfl⟩
      · exact splitFragment_of_notMem absent
      · have noHash : '#' ∉ [] := by simp
        exact splitFragment_blank noHash rfl after
    rw [List.append_nil, parsePart, noFragment]
    simp only [readPrefix]
    cases prefixOf name <;> simp
  · obtain ⟨blank, after, rfl, isBlank⟩ := fragment.shape
    have blankHash : '#' ∉ blank := blank_notMem isBlank (by decide)
    have nameTrim : trim (name ++ blank) = name := by
      have empty : IsBlank [] := by simp [IsBlank]
      simpa using trim_around empty composed.trimmed isBlank
    have noHash : '#' ∉ name ++ blank := by simp [fragment.noHash, blankHash]
    have cut := splitFragment_cut noHash (by rw [nameTrim]; exact fragment.kept) after
    have shape : name ++ (blank ++ '#' :: after) = name ++ blank ++ '#' :: after := by simp
    have tailKept : blank ++ '#' :: after ≠ [] := by simp
    have extended : ∀ domain target, prefixOf name = some (domain, target) →
        prefixOf (name ++ (blank ++ '#' :: after)) =
          some (domain, target ++ (blank ++ '#' :: after)) := fun domain target found =>
      prefixOf_append found composed.trimmed tailKept fragment.trimmed
    rw [shape] at extended ⊢
    rw [parsePart, cut]
    simp only [nameTrim, readPrefix]
    cases found : prefixOf name with
    | some parts =>
        rw [extended _ _ found]
        simp
    | none =>
        cases prefixOf (name ++ blank ++ '#' :: after) with
        | none => simp
        | some parts => simp

theorem Composed.rewritten {inner lead name tail trail rest new : Text}
    (composed : Composed inner lead name tail trail rest) (newTrimmed : IsTrimmed new)
    (noBar : '|' ∉ new) (uncut : tail = [] → IsUncut new)
    (plain : tail ≠ [] → new ≠ [] ∧ '#' ∉ new) :
    Composed (new ++ inner.drop (fragmentStart (targetPart inner))) [] new tail
      (if tail = [] then [] else trail) rest := by
  have tailBar : '|' ∉ tail := fun member => composed.noBar (by simp [member])
  rw [composed.drop_fragmentStart]
  refine ⟨?_, by simp [IsBlank], ?_, composed.display, newTrimmed, by simp [noBar, tailBar], ?_⟩
  · by_cases empty : tail = [] <;> simp [empty]
  · split
    · simp [IsBlank]
    · exact composed.trailBlank
  · rcases composed.fragment with ⟨empty, -⟩ | fragment
    · exact Or.inl ⟨empty, uncut empty⟩
    · have tailKept : tail ≠ [] := by
        obtain ⟨blank, after, rfl, -⟩ := fragment.shape
        simp
      refine Or.inr ⟨(plain tailKept).1, (plain tailKept).2, fragment.shape, ?_⟩
      apply newTrimmed.of_append (plain tailKept).1
      intro char last
      apply fragment.trimmed.last char
      rw [List.getLast?_append_of_ne_nil _ tailKept, last]

theorem Composed.target_spelled (composed : Composed inner lead name tail trail rest) :
    IsTrimmed (LinkTarget.parse inner).target ∧ '|' ∉ (LinkTarget.parse inner).target ∧
      (tail ≠ [] → (LinkTarget.parse inner).target ≠ []) ∧
      ('#' ∉ name → '#' ∉ (LinkTarget.parse inner).target) := by
  rw [composed.reads.2.1]
  have nameBar : '|' ∉ name := fun member => composed.noBar (by simp [member])
  cases found : prefixOf name with
  | none =>
      refine ⟨composed.trimmed, nameBar, ?_, id⟩
      intro tailKept
      rcases composed.fragment with ⟨empty, -⟩ | fragment
      · exact (tailKept empty).elim
      · exact fragment.kept
  | some parts =>
      obtain ⟨domain, target⟩ := parts
      obtain ⟨before, after, rfl, -, -, rfl, -, targetKept, -⟩ := prefixOf_eq_some found
      obtain ⟨_, _, _, _, afterEq⟩ := exists_trim after
      have inside : ∀ char ∈ trim after, char ∈ before ++ ':' :: after := by
        intro char member
        rw [afterEq]
        simp [member]
      exact ⟨isTrimmed_trim after, fun member => nameBar (inside _ member),
        fun _ => targetKept, fun noHash member => noHash (inside _ member)⟩

end Crystalline.Links
