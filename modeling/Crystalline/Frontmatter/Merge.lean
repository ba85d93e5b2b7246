import Crystalline.Frontmatter.KeyBlocks
import Crystalline.Keyed.Weave

/-!
# The key-wise three-way merge of a frontmatter

`mergeFrontmatter` merges three frontmatters key by key.  The line merge that
settles a block changed on both sides is the caller's.
-/

namespace Crystalline

open Text

section

open Keyed (position weave)

variable {Value : Type} [DecidableEq Value]

/-- The keys of some blocks, in order. -/
def keysOf (blocks : List (KeyBlock Value)) : List Value :=
  blocks.map KeyBlock.parsedKey

/-- Whether `side` holds the keys it shares with `base` in another relative
order than `base` does. -/
def reordered (base side : List (KeyBlock Value)) : Bool :=
  let places := side.filterMap fun block =>
    position KeyBlock.parsedKey block.parsedKey base
  (places.zip places.tail).any fun window => window.1 > window.2

/-- `leading`'s order, with each key only `other` has placed right after its
nearest preceding `other` key (first when it has none). -/
def interleave (leading other : List (KeyBlock Value)) : List (KeyBlock Value) :=
  weave KeyBlock.parsedKey leading other

/-- The condition under which local's key order leads. -/
def localLeads (base localBlocks upstreamBlocks : List (KeyBlock Value)) : Bool :=
  reordered base localBlocks && !reordered base upstreamBlocks

def keyOrder (base localBlocks upstreamBlocks : List (KeyBlock Value)) :
    List (KeyBlock Value) :=
  if localLeads base localBlocks upstreamBlocks then
    interleave localBlocks upstreamBlocks
  else interleave upstreamBlocks localBlocks

variable {base side : List (KeyBlock Value)}

/-- A side reorders its shared keys where two of them stand the other way
round in it. -/
theorem reordered_iff (nodup : (keysOf base).Nodup) : reordered base side = true ↔
    ∃ first second, [first, second].Sublist (keysOf base) ∧
      [second, first].Sublist (keysOf side) := by
  rw [reordered, Keyed.windows_any_iff]
  constructor
  · rintro ⟨place, next, among, above⟩
    obtain ⟨blocks, within, places⟩ := List.sublist_filterMap_iff.mp among
    obtain ⟨_, later, rest, rfl, -, atNext, others⟩ :=
      List.filterMap_eq_cons_iff.mp places.symm
    obtain ⟨_, earlier, _, rfl, -, atPlace, -⟩ := List.filterMap_eq_cons_iff.mp others
    have pair : [later, earlier].Sublist side := List.Sublist.trans (by simp) within
    exact ⟨earlier.parsedKey, later.parsedKey,
      (Keyed.pair_sublist_iff KeyBlock.parsedKey nodup).mpr ⟨place, next, atPlace, atNext, above⟩,
      pair.map KeyBlock.parsedKey⟩
  · rintro ⟨first, second, inBase, inSide⟩
    obtain ⟨place, next, atPlace, atNext, above⟩ :=
      (Keyed.pair_sublist_iff KeyBlock.parsedKey nodup).mp inBase
    refine ⟨place, next, ?_, above⟩
    obtain ⟨blocks, within, keys⟩ := List.sublist_map_iff.mp inSide
    obtain ⟨later, earlier, rfl⟩ : ∃ later earlier, blocks = [later, earlier] := by
      match blocks, keys with
      | [later, earlier], _ => exact ⟨later, earlier, rfl⟩
    simp only [List.map_cons, List.map_nil, List.cons.injEq, and_true] at keys
    have pair := within.filterMap fun block =>
      position KeyBlock.parsedKey block.parsedKey base
    simpa [← keys.1, ← keys.2, atPlace, atNext] using pair

theorem localLeads_iff {localBlocks upstreamBlocks : List (KeyBlock Value)}
    (nodup : (keysOf base).Nodup) : localLeads base localBlocks upstreamBlocks = true ↔
    (∃ first second, [first, second].Sublist (keysOf base) ∧
      [second, first].Sublist (keysOf localBlocks)) ∧
    ∀ first second, [first, second].Sublist (keysOf base) →
      ¬[second, first].Sublist (keysOf upstreamBlocks) := by
  rw [localLeads, Bool.and_eq_true, Bool.not_eq_true', ← Bool.not_eq_true, reordered_iff nodup,
    reordered_iff nodup]
  refine and_congr_right fun _ => ?_
  simp only [not_exists, not_and]

/-- The side whose order leads, and the other one. -/
def sidesInOrder (base localBlocks upstreamBlocks : List (KeyBlock Value)) :
    List (KeyBlock Value) × List (KeyBlock Value) :=
  if localLeads base localBlocks upstreamBlocks then (localBlocks, upstreamBlocks)
  else (upstreamBlocks, localBlocks)

/-- How the keys `order` lie to the two sides they come from. -/
structure Interleaves (leading other : List (KeyBlock Value)) (order : List Value) : Prop where
  nodup : order.Nodup
  mem_iff : ∀ key, key ∈ order ↔ key ∈ keysOf leading ∨ key ∈ keysOf other
  /-- The leading side's keys keep their relative order. -/
  leading_sublist : (keysOf leading).Sublist order
  /-- Keys only the other side has stand directly after the key they follow
  there, in the other side's order between them. -/
  behind : ∀ early pivot run late, other = early ++ pivot :: (run ++ late) →
    (∀ block ∈ run, block.parsedKey ∉ keysOf leading) →
      pivot.parsedKey :: keysOf run <:+: order
  /-- Those it starts with come first. -/
  first : ∀ run late, other = run ++ late →
    (∀ block ∈ run, block.parsedKey ∉ keysOf leading) → keysOf run <+: order

theorem interleave_interleaves {leading other : List (KeyBlock Value)}
    (leadingNodup : (keysOf leading).Nodup) (otherNodup : (keysOf other).Nodup) :
    Interleaves leading other (keysOf (interleave leading other)) := by
  obtain ⟨cursor, woven⟩ := Keyed.weave_woven leadingNodup otherNodup
  exact
    { nodup := woven.nodup
      mem_iff := woven.mem_iff
      leading_sublist := woven.leading_sublist.map _
      behind := fun _ _ _ _ split fresh => woven.run_behind split fresh
      first := fun _ _ split fresh => woven.run_first split fresh }

theorem keyOrder_eq_interleave
    (base localBlocks upstreamBlocks : List (KeyBlock Value)) :
    keyOrder base localBlocks upstreamBlocks =
      interleave (sidesInOrder base localBlocks upstreamBlocks).1
        (sidesInOrder base localBlocks upstreamBlocks).2 := by
  rw [keyOrder, sidesInOrder]
  split <;> rfl

/-- The key order holds every key of either side once, keeps the leading
side's order and places the other side's own keys behind their predecessors. -/
theorem keyOrder_interleaves
    (base localBlocks upstreamBlocks : List (KeyBlock Value))
    (localNodup : (keysOf localBlocks).Nodup)
    (upstreamNodup : (keysOf upstreamBlocks).Nodup) :
    (keysOf (keyOrder base localBlocks upstreamBlocks)).Nodup ∧
      (∀ key, key ∈ keysOf (keyOrder base localBlocks upstreamBlocks) ↔
        key ∈ keysOf localBlocks ∨ key ∈ keysOf upstreamBlocks) ∧
      Interleaves (sidesInOrder base localBlocks upstreamBlocks).1
        (sidesInOrder base localBlocks upstreamBlocks).2
        (keysOf (keyOrder base localBlocks upstreamBlocks)) := by
  have places : Interleaves (sidesInOrder base localBlocks upstreamBlocks).1
      (sidesInOrder base localBlocks upstreamBlocks).2
      (keysOf (keyOrder base localBlocks upstreamBlocks)) := by
    rw [keyOrder_eq_interleave]
    apply interleave_interleaves
    · rw [sidesInOrder]
      split <;> assumption
    · rw [sidesInOrder]
      split <;> assumption
  refine ⟨places.nodup, ?_, places⟩
  intro key
  rw [places.mem_iff, sidesInOrder]
  split
  · exact Iff.rfl
  · exact or_comm

/-- A block of a given key, for small examples. -/
def blockNamed {Value : Type} (key value : Value) : KeyBlock Value :=
  { key := [], parsedKey := key, text := [], value := value, line := 0 }

theorem keyOrder_interleaves_two_added :
    (keysOf (keyOrder [blockNamed 1 0, blockNamed 4 0]
        [blockNamed 1 0, blockNamed 2 0, blockNamed 3 0, blockNamed 4 0]
        [blockNamed 1 0, blockNamed 4 0])).Nodup ∧
      keysOf (keyOrder [blockNamed 1 0, blockNamed 4 0]
        [blockNamed 1 0, blockNamed 2 0, blockNamed 3 0, blockNamed 4 0]
        [blockNamed 1 0, blockNamed 4 0]) = [1, 2, 3, 4] :=
  ⟨(keyOrder_interleaves [blockNamed 1 0, blockNamed 4 0]
      [blockNamed 1 0, blockNamed 2 0, blockNamed 3 0, blockNamed 4 0]
      [blockNamed 1 0, blockNamed 4 0] (by decide) (by decide)).1, by decide⟩

end

/-- A caller's line-based three-way merge of base, local and upstream text;
`none` when the two sides collide. -/
abbrev LineMerge := Text → Text → Text → Option Text

/-- A top-level key a frontmatter holds more than once. -/
structure DuplicateKey where
  key : Text
  /-- One-based file lines of every copy, in file order. -/
  lines : List Nat
  /-- Whether every copy has the same parsed value. -/
  sameValue : Bool
  deriving DecidableEq

inductive Keep where
  | first
  | last

/-- What `merge_frontmatter` made of three sides. -/
inductive FrontmatterMerge where
  /-- The merged frontmatter, delimiters included, and the three bodies the
  caller still has to merge. -/
  | clean (head baseBody localBody upstreamBody : Text)
  | conflict
  | notApplicable
  deriving DecidableEq

/-- One side ready to merge. -/
structure Prepared (Value : Type) where
  preamble : Text
  blocks : List (KeyBlock Value)
  deriving DecidableEq

inductive Refusal where
  | stepAside
  | conflict
  deriving DecidableEq

section Sides

variable {Value : Type} [DecidableEq Value]

/-- Whether some block of `blocks` has the key `key`. -/
def holdsKey (blocks : List (KeyBlock Value)) (key : Value) : Bool :=
  blocks.any fun block => decide (block.parsedKey = key)

/-- The loop of `repeats`: `seen` is what stands before the rest. -/
def repeatsFrom (seen : List (KeyBlock Value)) :
    List (KeyBlock Value) → List DuplicateKey
  | [] => []
  | block :: rest =>
      let copies := (block :: rest).filter fun other =>
        decide (other.parsedKey = block.parsedKey)
      if holdsKey seen block.parsedKey || copies.length ≤ 1 then
        repeatsFrom (seen ++ [block]) rest
      else
        { key := block.key
          lines := copies.map KeyBlock.line
          sameValue := copies.all fun copy => decide (copy.value = block.value) } ::
            repeatsFrom (seen ++ [block]) rest

def repeats (blocks : List (KeyBlock Value)) : List DuplicateKey :=
  repeatsFrom [] blocks

/-- Whether the copy of `key` between `seen` and `rest` is one to drop. -/
def dropsCopy (keep : Keep) (seen rest : List (KeyBlock Value)) (key : Value) :
    Bool :=
  match keep with
  | .first => holdsKey seen key
  | .last => holdsKey rest key

/-- The loop of `without_repeats`. -/
def withoutRepeatsFrom (keep : Keep) (seen : List (KeyBlock Value)) :
    List (KeyBlock Value) → List (KeyBlock Value)
  | [] => []
  | block :: rest =>
      if dropsCopy keep seen rest block.parsedKey then
        withoutRepeatsFrom keep (seen ++ [block]) rest
      else block :: withoutRepeatsFrom keep (seen ++ [block]) rest

def withoutRepeats (blocks : List (KeyBlock Value)) (keep : Keep) :
    List (KeyBlock Value) :=
  withoutRepeatsFrom keep [] blocks

/-- The blocks read together say what they say one by one. -/
def consistent (yaml : Yaml Value) (preamble : Text) (blocks : List (KeyBlock Value)) : Bool :=
  if blocks.isEmpty then true
  else
    match yaml.readMapping (preamble ++ joinBlocks blocks) with
    | some mapping =>
        decide (mapping = blocks.map fun block => (block.parsedKey, block.value))
    | none => false

/-- One side cut, its equal repeats collapsed and checked. -/
def prepare (yaml : Yaml Value) (text : Text) :
    Except Refusal (Prepared Value) :=
  match keyBlocks yaml text with
  | none => .error .stepAside
  | some cut =>
      if (repeats cut.blocks).any fun found => !found.sameValue then
        .error .conflict
      else
        let kept := withoutRepeats cut.blocks .first
        if consistent yaml cut.preamble kept then
          .ok { preamble := cut.preamble, blocks := kept }
        else .error .stepAside

/-- The three-way rule on plain text. -/
def settle (base localText upstreamText : Text) : Option Text :=
  if localText = upstreamText ∨ localText = base then some upstreamText
  else if upstreamText = base then some localText
  else none

def find (blocks : List (KeyBlock Value)) (key : Value) :
    Option (KeyBlock Value) :=
  blocks.find? fun block => decide (block.parsedKey = key)

def valueOf (block : Option (KeyBlock Value)) : Option Value :=
  block.map KeyBlock.value

def textOf (block : Option (KeyBlock Value)) : Option Text :=
  block.map KeyBlock.text

end Sides

section Merge

variable {Value : Type} [DecidableEq Value] (yaml : Yaml Value)
  (lineMerge : LineMerge)

/-- The three block texts line-merged, with the merged value, when the result
is exactly one block of the same key ending in a line ending. -/
def mergeBlock (base localBlock upstreamBlock : KeyBlock Value) :
    Option (Text × Value) :=
  match lineMerge base.text localBlock.text upstreamBlock.text with
  | none => none
  | some merged =>
      match keyBlocks yaml merged with
      | some { preamble := [], blocks := [block] } =>
          if block.parsedKey = localBlock.parsedKey ∧ endsWith merged ['\n'] then
            some (merged, block.value)
          else none
      | _ => none

/-- `mergeBlock` of blocks that are all there. -/
def mergeThree (base localBlock upstreamBlock : Option (KeyBlock Value)) :
    Option (Text × Value) :=
  match base, localBlock, upstreamBlock with
  | some b, some l, some u => mergeBlock yaml lineMerge b l u
  | _, _, _ => none

/-- The merged text of three blocks when it carries the value `wanted`. -/
def mergeCarrying (base localBlock upstreamBlock : Option (KeyBlock Value))
    (wanted : Option Value) : Option Text :=
  match mergeThree yaml lineMerge base localBlock upstreamBlock with
  | some (merged, value) => if some value = wanted then some merged else none
  | none => none

/-- One key's result: `ok (some text)` writes that block, `ok none` drops the
key, `error` is a conflict. -/
def pick (base localBlock upstreamBlock : Option (KeyBlock Value)) :
    Except Unit (Option Text) :=
  if valueOf localBlock = valueOf upstreamBlock then
    -- Same value: the spelling of the side that re-spelled it.
    if textOf localBlock = textOf upstreamBlock ∨ textOf localBlock = textOf base then
      .ok (textOf upstreamBlock)
    else if textOf upstreamBlock = textOf base then .ok (textOf localBlock)
    else if base = none then .ok (textOf upstreamBlock)
    else
      match mergeCarrying yaml lineMerge base localBlock upstreamBlock
          (valueOf localBlock) with
      | some merged => .ok (some merged)
      | none => .ok (textOf localBlock)
  else if valueOf localBlock = valueOf base then
    if textOf localBlock = textOf base then .ok (textOf upstreamBlock)
    else
      -- Local only re-spelled it and upstream changed the value.
      match mergeCarrying yaml lineMerge base localBlock upstreamBlock
          (valueOf upstreamBlock) with
      | some merged => .ok (some merged)
      | none => .error ()
  else if valueOf upstreamBlock = valueOf base then
    if textOf upstreamBlock = textOf base then .ok (textOf localBlock)
    else
      -- The mirror: upstream only re-spelled it and local changed the value.
      match mergeCarrying yaml lineMerge base localBlock upstreamBlock
          (valueOf localBlock) with
      | some merged => .ok (some merged)
      | none => .error ()
  else
    match mergeThree yaml lineMerge base localBlock upstreamBlock with
    | some (merged, _) => .ok (some merged)
    | none => .error ()

/-- The loop over the key order: the head so far and one block more. -/
def mergeKeys (bs ls us : List (KeyBlock Value)) (head : Text) :
    List (KeyBlock Value) → Except Unit Text
  | [] => .ok head
  | block :: order =>
      match pick yaml lineMerge (find bs block.parsedKey)
          (find ls block.parsedKey) (find us block.parsedKey) with
      | .ok (some text) => mergeKeys bs ls us (head ++ text) order
      | .ok none => mergeKeys bs ls us head order
      | .error () => .error ()

/-- The base's frontmatter, prepared; a base without one counts as empty. -/
def prepareBase (parts : Option FrontmatterParts) : Except Refusal (Prepared Value) :=
  match parts with
  | none => .ok { preamble := [], blocks := [] }
  | some parts => prepare yaml parts.yaml

/-- The merge of three prepared sides: the merged head, or a conflict. -/
def mergePrepared (upstreamParts : FrontmatterParts) (bs ls us : Prepared Value) :
    Except Unit Text :=
  match settle bs.preamble ls.preamble us.preamble with
  | none => .error ()
  | some preamble =>
      (mergeKeys yaml lineMerge bs.blocks ls.blocks us.blocks
        (upstreamParts.openLine ++ preamble)
        (keyOrder bs.blocks ls.blocks us.blocks)).map
          (· ++ upstreamParts.closeLine)

/-- Merge three frontmatters key by key. -/
def mergeFrontmatter (base : Option Text) (localText upstreamText : Text) :
    FrontmatterMerge :=
  match splitFrontmatter localText, splitFrontmatter upstreamText with
  | some l, some u =>
      let b := base.bind splitFrontmatter
      let baseBody :=
        match base, b with
        | _, some parts => parts.body
        | some text, none => text
        | none, none => []
      match prepareBase yaml b, prepare yaml l.yaml, prepare yaml u.yaml with
      | .ok bs, .ok ls, .ok us =>
          match mergePrepared yaml lineMerge u bs ls us with
          | .ok head => .clean head baseBody l.body u.body
          | .error () => .conflict
      -- A side that cannot be cut steps aside before any repeat is looked at;
      -- a repeat only the base holds steps aside too.
      | .error .stepAside, _, _ => .notApplicable
      | _, .error .stepAside, _ => .notApplicable
      | _, _, .error .stepAside => .notApplicable
      | _, .error .conflict, _ => .conflict
      | _, _, .error .conflict => .conflict
      | .error .conflict, .ok _, .ok _ => .notApplicable
  | _, _ => .notApplicable

end Merge

end Crystalline
