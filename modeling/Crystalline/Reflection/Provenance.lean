import Crystalline.Frontmatter.BlockEdit
import Crystalline.Keyed.Ordered
import Crystalline.Text.Trim
import Mathlib.Data.Char
import Mathlib.Data.List.Lex

/-!
# The records of a reflection

What is kept of each section stands in the frontmatter under one key.  It is read
through the YAML value and written as text: the key's block is cut out and
replaced, and every other block stays as it is.
-/

namespace Crystalline.Reflection

open Text Keyed

/-- The frontmatter key holding the per-section records. -/
def provenanceKey : Text := "reflection".toList

/-- One engram a section was built from, with its checksum at that time. -/
structure SourceRef where
  /-- The engram's domain, when it is another domain than the page's. -/
  domain : Option Text
  engram : Text
  checksum : Text
  deriving DecidableEq

/-- What is kept about one section. -/
structure SectionRecord where
  sources : List SourceRef
  /-- The section hash at the last reflect. -/
  reflected : Option Text
  changedAt : Option Text
  changedBy : List Text
  answeredBy : Option Text
  deriving DecidableEq

/-- The records of a reflection, by section id. -/
abbrev Provenance := OrderedMap Text SectionRecord

section Values

variable {Float64 : Type}

/-- A field that is left out when there is nothing in it. -/
def optionalField (key : String) (value : Option Text) :
    List (Value Float64 × Value Float64) :=
  (value.map fun text => (.string key.toList, .string text)).toList

/-- A list field that is left out when it is empty. -/
def listField {Item : Type} (key : String) (toValue : Item → Value Float64)
    (items : List Item) : List (Value Float64 × Value Float64) :=
  if items.isEmpty then [] else [(.string key.toList, .sequence (items.map toValue))]

def SourceRef.toValue (source : SourceRef) : Value Float64 :=
  .mapping (optionalField "domain" source.domain ++
    [(.string "engram".toList, .string source.engram),
      (.string "checksum".toList, .string source.checksum)])

def SectionRecord.toValue (record : SectionRecord) : Value Float64 :=
  .mapping (listField "sources" SourceRef.toValue record.sources ++
    optionalField "reflected" record.reflected ++
    optionalField "changed_at" record.changedAt ++
    listField "changed_by" .string record.changedBy ++
    optionalField "answered_by" record.answeredBy)

/-- `to_value` of the records. -/
def recordsValue (provenance : Provenance) : Value Float64 :=
  .mapping (provenance.entries.map fun entry => (.string entry.1, entry.2.toValue))

end Values

/-- What is used of the YAML library beside its reader. -/
structure Serde (Float64 : Type) where
  /-- `to_string`. -/
  print : Value Float64 → Except Text Text
  /-- `from_value::<SectionRecord>`. -/
  readRecord : Value Float64 → Option SectionRecord

/-- The refusal of a frontmatter that cannot be cut. -/
def cannotCut : Text :=
  ("this reflection's frontmatter cannot be read key by key (a flow-style block, a line " ++
    "before the first key, or a key that does not stand on its own); write it as plain " ++
    "\x60key: value\x60 lines").toList

section Functions

variable {Float64 : Type} (backend : Backend Float64) (serde : Serde Float64)

def provenanceBlock (provenance : Provenance) : Except Text Text :=
  serde.print (.mapping [(.string provenanceKey, recordsValue provenance)])

/-- The value under a text key of a mapping. -/
def mappingGet (entries : List (Value Float64 × Value Float64)) (key : Text) :
    Option (Value Float64) :=
  (entries.find? fun entry => backend.yaml.asString entry.1 == some key).map Prod.snd

/-- One record, with the id it stands under; one that does not read is dropped. -/
def readEntry (entry : Value Float64 × Value Float64) : Option (Text × SectionRecord) :=
  let id :=
    match entry.1 with
    | .string id => some id
    | other => (serde.print other).toOption.map trim
  id.bind fun id => (serde.readRecord entry.2).map fun record => (id, record)

/-- `read_provenance`. -/
def readProvenance (source : Text) : Provenance :=
  match splitFrontmatter source with
  | none => .empty
  | some parts =>
      match backend.yaml.readMapping parts.yaml with
      | none => .empty
      | some entries =>
          match (mappingGet backend entries provenanceKey).bind backend.yaml.asMapping with
          | none => .empty
          | some records => .collect (records.filterMap (readEntry serde))

/-- The loop of `write_provenance` over the key blocks: the YAML so far, and
whether the records have their place. -/
def placeRecords (provenance : Provenance) (yaml : Text) (placed : Bool) :
    List (KeyBlock (Value Float64)) → Except Text (Text × Bool)
  | [] => .ok (yaml, placed)
  | block :: blocks =>
      if block.key = provenanceKey then
        if !placed && !provenance.isEmpty then
          match provenanceBlock serde provenance with
          | .error error => .error error
          | .ok records => placeRecords provenance (yaml ++ records) true blocks
        else placeRecords provenance yaml true blocks
      else
        placeRecords provenance
          (yaml ++ (block.text ++ if endsWith block.text ['\n'] then [] else ['\n'])) placed blocks

/-- `write_provenance`. -/
def writeProvenance (source : Text) (provenance : Provenance) : Except Text Text :=
  match splitFrontmatter source with
  | none =>
      if provenance.isEmpty then .ok source
      else
        match provenanceBlock serde provenance with
        | .error error => .error error
        | .ok records => .ok ("---\n".toList ++ records ++ "---\n\n".toList ++ source)
  | some parts =>
      match keyBlocks backend.yaml parts.yaml with
      | none => .error cannotCut
      | some cut =>
          match placeRecords serde provenance cut.preamble false cut.blocks with
          | .error error => .error error
          | .ok (yaml, placed) =>
              let written :=
                if !placed && !provenance.isEmpty then
                  (provenanceBlock serde provenance).map (yaml ++ ·)
                else .ok yaml
              match written with
              | .error error => .error error
              | .ok yaml =>
                  let hadRecords := cut.blocks.any fun block => block.key = provenanceKey
                  if hadRecords && (trim yaml).isEmpty then
                    .ok (trimStartMatches isLineBreak parts.body)
                  else .ok (parts.openLine ++ yaml ++ parts.closeLine ++ parts.body)

end Functions

section Placing

variable {Float64 : Type} {backend : Backend Float64} {serde : Serde Float64}
  {provenance : Provenance} {blocks front back : List (KeyBlock (Value Float64))}

/-- The blocks that are not the records'. -/
def otherBlocks (blocks : List (KeyBlock (Value Float64))) : List (KeyBlock (Value Float64)) :=
  blocks.filter fun block => block.key ≠ provenanceKey

/-- The records as they are written: nothing when there are none. -/
def recordsText (provenance : Provenance) (records : Text) : Text :=
  if provenance.isEmpty then [] else records

theorem otherBlocks_of_free (free : ∀ block ∈ blocks, block.key ≠ provenanceKey) :
    otherBlocks blocks = blocks :=
  List.filter_eq_self.mpr fun block member => decide_eq_true (free block member)

variable {block : KeyBlock (Value Float64)}

theorem mem_otherBlocks :
    block ∈ otherBlocks blocks ↔ block ∈ blocks ∧ block.key ≠ provenanceKey := by
  rw [otherBlocks, List.mem_filter, decide_eq_true_eq]

theorem endsWith_of_isBlockText {text : Text} (shape : IsBlockText text) :
    endsWith text ['\n'] = true := by
  obtain ⟨terminated, first, rest, pieces, -⟩ := shape
  rcases terminated_iff_getLast?.mp terminated with rfl | last
  · cases pieces
  · obtain ⟨body, rfl⟩ := List.getLast?_eq_some_iff.mp last
    exact endsWith_iff.mpr (List.suffix_append _ _)

theorem joinBlocks_cons (block : KeyBlock (Value Float64)) (blocks) :
    joinBlocks (block :: blocks) = block.text ++ joinBlocks blocks := rfl

theorem joinBlocks_append (front back : List (KeyBlock (Value Float64))) :
    joinBlocks (front ++ back) = joinBlocks front ++ joinBlocks back := by
  rw [joinBlocks, List.map_append, List.flatten_append]
  rfl

theorem placeRecords_append (shapes : ∀ block ∈ front, IsBlockText block.text)
    (free : ∀ block ∈ front, block.key ≠ provenanceKey) (yaml : Text) (placed : Bool) :
    placeRecords serde provenance yaml placed (front ++ back) =
      placeRecords serde provenance (yaml ++ joinBlocks front) placed back := by
  induction front generalizing yaml with
  | nil => simp [joinBlocks]
  | cons block front induction =>
      rw [List.cons_append, placeRecords, if_neg (free block List.mem_cons_self),
        endsWith_of_isBlockText (shapes block List.mem_cons_self), if_pos rfl, List.append_nil,
        induction (fun other member => shapes other (List.mem_cons_of_mem _ member))
          (fun other member => free other (List.mem_cons_of_mem _ member)),
        joinBlocks_cons, List.append_assoc]

theorem placeRecords_placed (shapes : ∀ block ∈ blocks, IsBlockText block.text) (yaml : Text) :
    placeRecords serde provenance yaml true blocks =
      .ok (yaml ++ joinBlocks (otherBlocks blocks), true) := by
  induction blocks generalizing yaml with
  | nil => simp [placeRecords, otherBlocks, joinBlocks]
  | cons block blocks induction =>
      have later := induction fun other member => shapes other (List.mem_cons_of_mem _ member)
      rw [placeRecords]
      by_cases records : block.key = provenanceKey
      · rw [if_pos records, Bool.not_true, Bool.false_and, if_neg (by simp), later]
        simp [otherBlocks, records]
      · rw [if_neg records, endsWith_of_isBlockText (shapes block List.mem_cons_self), if_pos rfl,
          List.append_nil, later]
        simp [otherBlocks, records, joinBlocks]

theorem placeRecords_here {records : Text}
    (printed : provenanceBlock serde provenance = .ok records) (key : block.key = provenanceKey)
    (shapes : ∀ block ∈ back, IsBlockText block.text) (yaml : Text) :
    placeRecords serde provenance yaml false (block :: back) =
      .ok (yaml ++ recordsText provenance records ++ joinBlocks (otherBlocks back), true) := by
  rw [placeRecords, if_pos key, recordsText]
  cases provenance.isEmpty with
  | true =>
      rw [Bool.not_true, Bool.and_false, if_neg (by simp), placeRecords_placed shapes]
      simp
  | false =>
      rw [Bool.not_false, Bool.and_self, if_pos rfl, printed]
      exact placeRecords_placed shapes _

theorem placeRecords_renumber (index : Nat) (yaml : Text) (placed : Bool) :
    placeRecords serde provenance yaml placed (renumber index blocks) =
      placeRecords serde provenance yaml placed blocks := by
  induction blocks generalizing index yaml placed with
  | nil => rfl
  | cons block blocks induction => simp only [renumber, placeRecords, induction]

theorem any_key_renumber (index : Nat) :
    (renumber index blocks).any (fun block => block.key = provenanceKey) =
      blocks.any fun block => block.key = provenanceKey := by
  induction blocks generalizing index with
  | nil => rfl
  | cons block blocks induction => rw [renumber, List.any_cons, List.any_cons, induction]

theorem texts_otherBlocks_renumber (index : Nat) :
    (otherBlocks (renumber index blocks)).map KeyBlock.text =
      (otherBlocks blocks).map KeyBlock.text := by
  induction blocks generalizing index with
  | nil => rfl
  | cons block blocks induction =>
      have later := induction (index + (splitInclusive block.text).length)
      rw [otherBlocks] at later ⊢
      by_cases records : block.key = provenanceKey
      · simpa [renumber, otherBlocks, records] using later
      · simpa [renumber, otherBlocks, records] using later

/-- Where the records go: in front of the first block of their key, or at the
end. -/
theorem exists_place (blocks : List (KeyBlock (Value Float64))) :
    (∀ block ∈ blocks, block.key ≠ provenanceKey) ∨
      ∃ front block back, blocks = front ++ block :: back ∧ block.key = provenanceKey ∧
        ∀ other ∈ front, other.key ≠ provenanceKey := by
  induction blocks with
  | nil => exact .inl (by simp)
  | cons block blocks induction =>
      by_cases records : block.key = provenanceKey
      · exact .inr ⟨[], block, blocks, rfl, records, by simp⟩
      · rcases induction with free | ⟨front, here, back, rfl, key, free⟩
        · refine .inl ?_
          intro other member
          rcases List.mem_cons.mp member with rfl | member
          · exact records
          · exact free other member
        · refine .inr ⟨block :: front, here, back, rfl, key, ?_⟩
          intro other member
          rcases List.mem_cons.mp member with rfl | member
          · exact records
          · exact free other member

/-- What a page with frontmatter becomes. -/
theorem writeProvenance_cut {source records : Text} {parts : FrontmatterParts}
    {cut : KeyBlocks (Value Float64)} (split : splitFrontmatter source = some parts)
    (cuts : keyBlocks backend.yaml parts.yaml = some cut)
    (shapes : ∀ block ∈ cut.blocks, IsBlockText block.text)
    (printed : provenanceBlock serde provenance = .ok records) :
    ∃ front back yaml, front ++ back = otherBlocks cut.blocks ∧
      yaml = cut.preamble ++ joinBlocks front ++ recordsText provenance records ++
        joinBlocks back ∧
      writeProvenance backend serde source provenance =
        if (cut.blocks.any fun block => block.key = provenanceKey) && (trim yaml).isEmpty then
          .ok (trimStartMatches isLineBreak parts.body)
        else .ok (parts.openLine ++ yaml ++ parts.closeLine ++ parts.body) := by
  rcases exists_place cut.blocks with free | ⟨front, block, back, whole, key, free⟩
  · refine ⟨cut.blocks, [], _, ?_, rfl, ?_⟩
    · rw [List.append_nil, otherBlocks_of_free free]
    · have copied := @placeRecords_append Float64 serde provenance cut.blocks [] shapes free
        cut.preamble false
      rw [List.append_nil] at copied
      rw [writeProvenance, split]
      simp only [cuts, copied, placeRecords, recordsText, printed, joinBlocks, List.map_nil,
        List.flatten_nil, List.append_nil]
      cases provenance.isEmpty <;> simp [Except.map]
  · have inFront : ∀ other ∈ front, IsBlockText other.text := fun other member =>
      shapes other (by rw [whole]; exact List.mem_append_left _ member)
    have inBack : ∀ other ∈ back, IsBlockText other.text := fun other member =>
      shapes other (by
        rw [whole]
        exact List.mem_append_right _ (List.mem_cons_of_mem _ member))
    refine ⟨front, otherBlocks back, _, ?_, rfl, ?_⟩
    · have apart : otherBlocks (front ++ block :: back) =
          otherBlocks front ++ otherBlocks back := by
        rw [otherBlocks, List.filter_append, List.filter_cons_of_neg (by simp [key])]
        rfl
      rw [whole, apart, otherBlocks_of_free free]
    · have placed := placeRecords_here printed key inBack (cut.preamble ++ joinBlocks front)
      rw [← @placeRecords_append Float64 serde provenance front (block :: back) inFront free,
        ← whole] at placed
      rw [writeProvenance, split]
      simp only [cuts, placed, Bool.not_true, Bool.false_and, Bool.false_eq_true, if_false]

end Placing

section Reading

variable {Float64 : Type} {backend : Backend Float64} {serde : Serde Float64}
  {provenance : Provenance} {records : Text} {front back : List (KeyBlock (Value Float64))}
  {parts : FrontmatterParts} {preamble : Text}

/-- The printer writes the records as one block of their key, and the reader takes
the block and each record back as it was. -/
structure PrintsRecords (backend : Backend Float64) (serde : Serde Float64)
    (provenance : Provenance) (records : Text) : Prop where
  printed : provenanceBlock serde provenance = .ok records
  opens : startsWith records "reflection:".toList = true
  shape : IsBlockText records
  reads : backend.yaml.readMapping records =
    some [(.string provenanceKey, recordsValue provenance)]
  typed : ∀ entry ∈ provenance.entries, serde.readRecord entry.2.toValue = some entry.2

/-- A key with its value, as the reader lists it. -/
def pairOf (block : KeyBlock (Value Float64)) : Value Float64 × Value Float64 :=
  (block.parsedKey, block.value)

/-- The reader takes the blocks of a page, with the records at any place among
those of other keys, as the mapping of them all; without the records, if it takes
them at all, as the mapping of the others. -/
structure TakesRecords (backend : Backend Float64) (cut : KeyBlocks (Value Float64))
    (provenance : Provenance) (records : Text) : Prop where
  joined : ∀ front back, front ++ back = otherBlocks cut.blocks →
    backend.yaml.readMapping (cut.preamble ++ joinBlocks front ++ records ++ joinBlocks back) =
      some (front.map pairOf ++
        (.string provenanceKey, recordsValue provenance) :: back.map pairOf)
  apart : ∀ entries,
    backend.yaml.readMapping (cut.preamble ++ joinBlocks (otherBlocks cut.blocks)) =
        some entries →
      entries = (otherBlocks cut.blocks).map pairOf

/-- The records as a block of their own. -/
def recordsBlock (provenance : Provenance) (records : Text) : KeyBlock (Value Float64) :=
  { key := provenanceKey, parsedKey := .string provenanceKey, text := records
    value := recordsValue provenance, line := 0 }

section

variable (prints : PrintsRecords backend serde provenance records)
include prints

theorem PrintsRecords.wellCut : (recordsBlock provenance records).WellCut backend.yaml :=
  ⟨prints.shape, prints.reads, rfl⟩

theorem PrintsRecords.undelimited : ∀ line ∈ splitInclusive records, isDelimiter line = false := by
  obtain ⟨terminated, first, rest, pieces, -, continues⟩ := prints.shape
  have whole := flatten_splitInclusive records
  obtain ⟨more, opens⟩ := startsWith_iff.mp prints.opens
  intro line member
  apply not_isDelimiter_of_content (terminated line member)
  rw [pieces] at member
  rcases List.mem_cons.mp member with rfl | member
  · intro content
    obtain ⟨ending, split⟩ := lineContent_front line
    rw [pieces, List.flatten_cons, ← split, content, ← opens] at whole
    exact absurd (congrArg List.head? whole) (by simp)
  · intro content
    have starts := (continues line member).2
    rw [content] at starts
    exact absurd starts (by decide)

end

theorem asString_ne_of_key {block : KeyBlock (Value Float64)} (reads : block.Reads backend.yaml)
    (other : block.key ≠ provenanceKey) :
    backend.yaml.asString block.parsedKey ≠ some provenanceKey := by
  intro same
  apply other
  rw [reads.2, keyText, same]

theorem mappingGet_free (reads : ∀ block ∈ front, block.Reads backend.yaml)
    (free : ∀ block ∈ front, block.key ≠ provenanceKey)
    (entries : List (Value Float64 × Value Float64)) :
    mappingGet backend (front.map pairOf ++ entries) provenanceKey =
      mappingGet backend entries provenanceKey := by
  induction front with
  | nil => rfl
  | cons block front induction =>
      have other := asString_ne_of_key (reads block List.mem_cons_self)
        (free block List.mem_cons_self)
      rw [List.map_cons, List.cons_append, mappingGet, List.find?_cons_of_neg, ← mappingGet]
      · exact induction (fun more member => reads more (List.mem_cons_of_mem _ member))
          fun more member => free more (List.mem_cons_of_mem _ member)
      · simpa [pairOf] using other

section

variable (prints : PrintsRecords backend serde provenance records)
include prints

theorem filterMap_readEntry :
    (provenance.entries.map fun entry => (Value.string entry.1, entry.2.toValue)).filterMap
      (readEntry serde) = provenance.entries := by
  have typed := prints.typed
  generalize provenance.entries = entries at typed
  induction entries with
  | nil => rfl
  | cons entry entries induction =>
      have here := typed entry List.mem_cons_self
      rw [List.map_cons, List.filterMap_cons,
        induction fun other member => typed other (List.mem_cons_of_mem _ member)]
      simp [readEntry, here]

theorem readProvenance_joined (reads : ∀ block ∈ front, block.Reads backend.yaml)
    (free : ∀ block ∈ front, block.key ≠ provenanceKey) {source : Text}
    (split : splitFrontmatter source = some parts)
    (mapping : backend.yaml.readMapping parts.yaml = some (front.map pairOf ++
      (.string provenanceKey, recordsValue provenance) :: back.map pairOf)) :
    readProvenance backend serde source = provenance := by
  have found : mappingGet backend (front.map pairOf ++
      (.string provenanceKey, recordsValue provenance) :: back.map pairOf) provenanceKey =
        some (recordsValue provenance) := by
    rw [mappingGet_free reads free, mappingGet, List.find?_cons_of_pos (by simp [Backend.yaml])]
    rfl
  rw [readProvenance, split]
  simp only [mapping, found, Option.bind_some]
  have entries : backend.yaml.asMapping (recordsValue provenance) =
      some (provenance.entries.map fun entry => (Value.string entry.1, entry.2.toValue)) := rfl
  rw [entries]
  simp only
  rw [filterMap_readEntry prints, OrderedMap.collect_entries]

end

theorem readProvenance_free (reads : ∀ block ∈ front, block.Reads backend.yaml)
    (free : ∀ block ∈ front, block.key ≠ provenanceKey) {source : Text}
    (split : splitFrontmatter source = some parts)
    (mapping : ∀ entries, backend.yaml.readMapping parts.yaml = some entries →
      entries = front.map pairOf) :
    readProvenance backend serde source = .empty := by
  rw [readProvenance, split]
  cases read : backend.yaml.readMapping parts.yaml with
  | none => simp only [read]
  | some entries =>
      have absent : mappingGet backend (front.map pairOf) provenanceKey = none := by
        have found := @mappingGet_free Float64 backend front reads free []
        rw [List.append_nil] at found
        exact found
      obtain rfl := mapping entries read
      simp only [read, absent, Option.bind_none]

end Reading

section Pages

variable {Float64 : Type} {backend : Backend Float64} {serde : Serde Float64}
  {provenance : Provenance} {source records preamble : Text} {parts : FrontmatterParts}
  {front back blocks : List (KeyBlock (Value Float64))} {cut : KeyBlocks (Value Float64)}

/-- The blocks of a frontmatter with the records among them. -/
def withRecords (provenance : Provenance) (records : Text)
    (front back : List (KeyBlock (Value Float64))) : List (KeyBlock (Value Float64)) :=
  front ++ (if provenance.isEmpty then [] else [recordsBlock provenance records]) ++ back

theorem joinBlocks_withRecords :
    joinBlocks (withRecords provenance records front back) =
      joinBlocks front ++ recordsText provenance records ++ joinBlocks back := by
  rw [withRecords, joinBlocks_append, joinBlocks_append, recordsText]
  cases provenance.isEmpty <;> simp [joinBlocks, recordsBlock]

theorem otherBlocks_withRecords (free : ∀ block ∈ front ++ back, block.key ≠ provenanceKey) :
    otherBlocks (withRecords provenance records front back) = front ++ back := by
  have frontFree := otherBlocks_of_free fun block member =>
    free block (List.mem_append_left _ member)
  have backFree := otherBlocks_of_free fun block member =>
    free block (List.mem_append_right _ member)
  rw [otherBlocks] at frontFree backFree
  rw [otherBlocks, withRecords, List.filter_append, List.filter_append, frontFree, backFree]
  cases provenance.isEmpty <;> simp [recordsBlock]

theorem wellCut_withRecords (prints : PrintsRecords backend serde provenance records)
    (wellCut : ∀ block ∈ front ++ back, block.WellCut backend.yaml) :
    ∀ block ∈ withRecords provenance records front back, block.WellCut backend.yaml := by
  intro block member
  rcases List.mem_append.mp member with member | member
  · rcases List.mem_append.mp member with member | member
    · exact wellCut block (List.mem_append_left _ member)
    · cases none : provenance.isEmpty with
      | true =>
          rw [none] at member
          cases member
      | false =>
          rw [none] at member
          rw [List.mem_singleton.mp member]
          exact prints.wellCut
  · exact wellCut block (List.mem_append_right _ member)

/-- The parts of a page that holds the records among other blocks. -/
structure Holds (backend : Backend Float64) (provenance : Provenance) (records preamble : Text)
    (front back : List (KeyBlock (Value Float64))) (parts : FrontmatterParts) : Prop where
  wellCut : parts.WellCut
  yaml : parts.yaml = preamble ++ joinBlocks (withRecords provenance records front back)
  preamble : IsPreambleText preamble
  blocks : ∀ block ∈ front ++ back, block.WellCut backend.yaml
  free : ∀ block ∈ front ++ back, block.key ≠ provenanceKey

section

variable (holds : Holds backend provenance records preamble front back parts)
include holds

theorem Holds.split : splitFrontmatter parts.source = some parts :=
  splitFrontmatter_eq_some_iff.mpr ⟨holds.wellCut, rfl⟩

section

variable (prints : PrintsRecords backend serde provenance records)
include prints

theorem Holds.cuts :
    keyBlocks backend.yaml parts.yaml = some ⟨preamble,
      renumber (splitInclusive preamble).length (withRecords provenance records front back)⟩ := by
  rw [holds.yaml]
  exact keyBlocks_join holds.preamble (wellCut_withRecords prints holds.blocks)

/-- Writing the records that are there changes nothing. -/
theorem Holds.again : writeProvenance backend serde parts.source provenance = .ok parts.source := by
  have shapes : ∀ block ∈ front ++ back, IsBlockText block.text :=
    fun block member => (holds.blocks block member).1
  rw [writeProvenance, holds.split]
  simp only [holds.cuts prints, placeRecords_renumber, any_key_renumber]
  have inFront : ∀ block ∈ front, IsBlockText block.text :=
    fun block member => shapes block (List.mem_append_left _ member)
  have inBack : ∀ block ∈ back, IsBlockText block.text :=
    fun block member => shapes block (List.mem_append_right _ member)
  have frontFree : ∀ block ∈ front, block.key ≠ provenanceKey :=
    fun block member => holds.free block (List.mem_append_left _ member)
  have backFree : ∀ block ∈ back, block.key ≠ provenanceKey :=
    fun block member => holds.free block (List.mem_append_right _ member)
  have yaml := holds.yaml
  rw [joinBlocks_withRecords] at yaml
  cases none : provenance.isEmpty with
  | true =>
      have blocks : withRecords provenance records front back = front ++ back := by
        simp [withRecords, none]
      have all := @placeRecords_append Float64 serde provenance (front ++ back) [] shapes holds.free
        preamble false
      rw [List.append_nil, placeRecords, joinBlocks_append, ← List.append_assoc] at all
      have unheld : ((front ++ back).any fun block => block.key = provenanceKey) = false := by
        rw [List.any_eq_false]
        intro block member
        simpa using holds.free block member
      rw [recordsText, if_pos none, List.append_nil, ← List.append_assoc] at yaml
      rw [blocks]
      simp only [all, unheld, ← yaml, Bool.not_true, Bool.and_false, Bool.false_and,
        Bool.false_eq_true, if_false]
      rfl
  | false =>
      have blocks : withRecords provenance records front back =
          front ++ recordsBlock provenance records :: back := by
        simp [withRecords, none]
      have placed := placeRecords_here prints.printed
        (show (@recordsBlock Float64 provenance records).key = provenanceKey from rfl)
        inBack (preamble ++ joinBlocks front)
      rw [← placeRecords_append inFront frontFree, otherBlocks_of_free backFree] at placed
      have held : ((front ++ recordsBlock provenance records :: back).any
          fun block => block.key = provenanceKey) = true :=
        List.any_eq_true.mpr ⟨recordsBlock provenance records, by simp, by simp [recordsBlock]⟩
      have visible : (trim parts.yaml).isEmpty = false := by
        rw [Bool.eq_false_iff]
        intro empty
        have blank := isBlank_of_trim_eq_nil (List.isEmpty_iff.mp empty)
        obtain ⟨more, opens⟩ := startsWith_iff.mp prints.opens
        have inside : 'r' ∈ parts.yaml := by
          rw [yaml, recordsText, none, ← opens]
          simp
        exact absurd (blank 'r' inside) (by decide)
      rw [← List.append_assoc, ← List.append_assoc] at yaml
      rw [blocks]
      simp only [placed, held, ← yaml, visible, Bool.not_true, Bool.false_and, Bool.and_false,
        Bool.false_eq_true, if_false]
      rfl

end

end

section

variable (prints : PrintsRecords backend serde provenance records)
  (preambleText : IsPreambleText preamble)
  (wellCut : ∀ block ∈ front ++ back, block.WellCut backend.yaml)
include prints preambleText wellCut

theorem terminated_withRecords :
    Terminated (preamble ++ joinBlocks (withRecords provenance records front back)) := by
  apply preambleText.1.append
  apply Terminated.flatten
  intro text member
  obtain ⟨block, inside, rfl⟩ := List.mem_map.mp member
  exact (wellCut_withRecords prints wellCut block inside).1.1

/-- No line of the new frontmatter ends it early. -/
theorem undelimited_withRecords (plain : ∀ line ∈ splitInclusive preamble, isDelimiter line = false)
    (plainBlocks : ∀ block ∈ front ++ back, ∀ line ∈ splitInclusive block.text,
      isDelimiter line = false) :
    ∀ line ∈ splitInclusive (preamble ++ joinBlocks (withRecords provenance records front back)),
      isDelimiter line = false := by
  have ended (block) (inside : block ∈ withRecords provenance records front back) :=
    wellCut_withRecords prints wellCut block inside
  rw [splitInclusive_append preambleText.1,
    splitInclusive_joinBlocks fun block member => (ended block member).1.1]
  intro line member
  rcases List.mem_append.mp member with member | member
  · exact plain line member
  · obtain ⟨pieces, inside, member⟩ := List.mem_flatten.mp member
    obtain ⟨block, held, rfl⟩ := List.mem_map.mp inside
    rcases List.mem_append.mp held with held | held
    · rcases List.mem_append.mp held with held | held
      · exact plainBlocks block (List.mem_append_left _ held) line member
      · cases none : provenance.isEmpty with
        | true =>
            rw [none] at held
            cases held
        | false =>
            rw [none] at held
            rw [List.mem_singleton.mp held] at member
            exact prints.undelimited line member
    · exact plainBlocks block (List.mem_append_right _ held) line member

end

/-- What a page becomes when its frontmatter stays, or is opened for the records. -/
inductive Rewritten (backend : Backend Float64) (source : Text) (provenance : Provenance) :
    Text → Prop
  | unchanged : splitFrontmatter source = none → provenance = .empty →
      Rewritten backend source provenance source
  | opened (records text : Text) : splitFrontmatter source = none → provenance ≠ .empty →
      splitFrontmatter text =
        some ⟨"---\n".toList, records, "---\n".toList, '\n' :: source⟩ →
      Rewritten backend source provenance text
  | placed (parts : FrontmatterParts) (yaml text : Text)
      (before after : KeyBlocks (Value Float64)) :
      splitFrontmatter source = some parts →
      splitFrontmatter text = some { parts with yaml := yaml } →
      keyBlocks backend.yaml parts.yaml = some before →
      keyBlocks backend.yaml yaml = some after → after.preamble = before.preamble →
      (otherBlocks after.blocks).map KeyBlock.text =
        (otherBlocks before.blocks).map KeyBlock.text →
      Rewritten backend source provenance text

/-- The page holds the records, and writing them again changes nothing. -/
structure Settled (backend : Backend Float64) (serde : Serde Float64) (provenance : Provenance)
    (text : Text) : Prop where
  read : readProvenance backend serde text = provenance
  again : writeProvenance backend serde text provenance = .ok text

theorem settled_unframed (split : splitFrontmatter source = none) :
    Settled backend serde .empty source := by
  constructor
  · rw [readProvenance, split]
  · rw [writeProvenance, split]
    rfl

/-- The records are taken out of a frontmatter that holds them and nothing else
but blanks. -/
structure Clears (backend : Backend Float64) (source : Text) (provenance : Provenance) : Prop where
  empty : provenance = .empty
  held : ∃ parts cut, splitFrontmatter source = some parts ∧
    keyBlocks backend.yaml parts.yaml = some cut ∧
    (cut.blocks.any fun block => block.key = provenanceKey) = true ∧
    trim (cut.preamble ++ joinBlocks (otherBlocks cut.blocks)) = []

/-- A frontmatter that held the records alone goes with them, and so do the line
breaks behind it. -/
structure Cleared (backend : Backend Float64) (serde : Serde Float64) (source : Text)
    (provenance : Provenance) (text : Text) : Prop where
  empty : provenance = .empty
  held : ∃ parts cut, splitFrontmatter source = some parts ∧
    keyBlocks backend.yaml parts.yaml = some cut ∧
    (cut.blocks.any fun block => block.key = provenanceKey) = true ∧
    trim (cut.preamble ++ joinBlocks (otherBlocks cut.blocks)) = [] ∧
    text = trimStartMatches isLineBreak parts.body
  settled : splitFrontmatter text = none → Settled backend serde provenance text

section

variable (prints : PrintsRecords backend serde provenance records)
include prints

theorem writeProvenance_unframed (split : splitFrontmatter source = none) :
    ∃ text, writeProvenance backend serde source provenance = .ok text ∧
      Rewritten backend source provenance text ∧ Settled backend serde provenance text := by
  cases none : provenance.isEmpty with
  | true =>
      obtain rfl := OrderedMap.eq_empty_of_isEmpty none
      refine ⟨source, ?_, .unchanged split rfl, settled_unframed split⟩
      rw [writeProvenance, split]
      rfl
  | false =>
      have opened : provenance ≠ .empty := by
        rintro rfl
        cases none
      let parts : FrontmatterParts :=
        ⟨"---\n".toList, records, "---\n".toList, '\n' :: source⟩
      have ended : IsLine "---\n".toList := ⟨"---".toList, by decide, rfl⟩
      have delimits : isDelimiter "---\n".toList = true := by decide
      have yaml : records = [] ++ joinBlocks (withRecords provenance records
          ([] : List (KeyBlock (Value Float64))) []) := by
        simp [withRecords, none, joinBlocks, recordsBlock]
      have holds : Holds backend provenance records [] [] [] parts :=
        ⟨⟨ended, delimits, prints.shape.1, prints.undelimited, delimits, .inl ended⟩, yaml,
          ⟨terminated_nil, by simp [splitInclusive]⟩, by simp, by simp⟩
      have text : "---\n".toList ++ records ++ "---\n\n".toList ++ source = parts.source := by
        simp [parts, FrontmatterParts.source]
      refine ⟨parts.source, ?_, .opened records _ split opened holds.split, ?_, holds.again prints⟩
      · rw [writeProvenance, split]
        simp only [none, Bool.false_eq_true, if_false, prints.printed, text]
      · exact @readProvenance_joined Float64 backend serde provenance records [] [] parts prints
          (by simp) (by simp) parts.source holds.split prints.reads

section

variable (split : splitFrontmatter source = some parts)
  (cuts : keyBlocks backend.yaml parts.yaml = some cut)
  (others : front ++ back = otherBlocks cut.blocks)
include split cuts others

/-- A frontmatter holds the records put among its other blocks. -/
theorem holds_withRecords :
    Holds backend provenance records cut.preamble front back { parts with
      yaml := cut.preamble ++ joinBlocks (withRecords provenance records front back) } := by
  obtain ⟨wellCut, -⟩ := splitFrontmatter_eq_some_iff.mp split
  obtain ⟨whole, preambleText, blocksCut⟩ := keyBlocks_eq_some wellCut.yaml_terminated cuts
  have among : ∀ block ∈ front ++ back, block ∈ cut.blocks ∧ block.key ≠ provenanceKey := by
    intro block member
    rw [others] at member
    exact mem_otherBlocks.mp member
  have restCut : ∀ block ∈ front ++ back, block.WellCut backend.yaml :=
    fun block member => blocksCut block (among block member).1
  have pieces : splitInclusive parts.yaml = splitInclusive cut.preamble ++
      (cut.blocks.map fun block => splitInclusive block.text).flatten := by
    rw [whole, splitInclusive_append preambleText.1,
      splitInclusive_joinBlocks fun block member => (blocksCut block member).1.1]
  refine ⟨⟨wellCut.openLine_isLine, wellCut.openLine_delimits, ?_, ?_,
    wellCut.closeLine_delimits, wellCut.closeLine_ends⟩, rfl, preambleText, restCut,
      fun block member => (among block member).2⟩
  · exact terminated_withRecords prints preambleText restCut
  · apply undelimited_withRecords prints preambleText restCut
    · intro line member
      exact wellCut.yaml_undelimited line (by
        rw [pieces]
        exact List.mem_append_left _ member)
    · intro block member line inside
      refine wellCut.yaml_undelimited line ?_
      rw [pieces]
      exact List.mem_append_right _
        (List.mem_flatten.mpr ⟨_, List.mem_map_of_mem (among block member).1, inside⟩)

/-- Records put among the other blocks of a frontmatter are read back. -/
theorem withRecords_settles (takes : TakesRecords backend cut provenance records) {yaml : Text}
    (joined : yaml = cut.preamble ++ joinBlocks (withRecords provenance records front back)) :
    Rewritten backend source provenance { parts with yaml := yaml }.source ∧
      Settled backend serde provenance { parts with yaml := yaml }.source := by
  have holds := holds_withRecords prints split cuts others
  rw [← joined] at holds
  have free := holds.free
  refine ⟨.placed parts yaml _ cut _ split holds.split cuts (holds.cuts prints) rfl ?_, ?_,
    holds.again prints⟩
  · rw [texts_otherBlocks_renumber, otherBlocks_withRecords free, others]
  · cases none : provenance.isEmpty with
    | true =>
        rw [OrderedMap.eq_empty_of_isEmpty none]
        apply readProvenance_free (fun block member => (holds.blocks block member).2) free
          holds.split
        intro entries read
        rw [others]
        apply takes.apart
        rw [joined, joinBlocks_withRecords, recordsText, none] at read
        rw [← others, joinBlocks_append]
        simpa using read
    | false =>
        apply readProvenance_joined prints
          (fun block member => (holds.blocks block (List.mem_append_left _ member)).2)
          (fun block member => free block (List.mem_append_left _ member)) holds.split
        have mapping := takes.joined front back others
        rw [joined, joinBlocks_withRecords, recordsText, none]
        simpa using mapping

end

/-- A frontmatter that is blank with the records in it holds none. -/
theorem isEmpty_of_blank {before after : Text}
    (blank : trim (before ++ recordsText provenance records ++ after) = []) :
    provenance.isEmpty = true := by
  cases some : provenance.isEmpty with
  | true => rfl
  | false =>
      have spaces := isBlank_of_trim_eq_nil blank
      obtain ⟨more, opens⟩ := startsWith_iff.mp prints.opens
      have inside : 'r' ∈ before ++ recordsText provenance records ++ after := by
        rw [recordsText, some, ← opens]
        simp
      exact absurd (spaces 'r' inside) (by decide)

theorem writeProvenance_framed (split : splitFrontmatter source = some parts)
    (cuts : keyBlocks backend.yaml parts.yaml = some cut)
    (takes : TakesRecords backend cut provenance records) :
    ∃ text, writeProvenance backend serde source provenance = .ok text ∧
      (¬ Clears backend source provenance →
        Rewritten backend source provenance text ∧ Settled backend serde provenance text) ∧
      (Clears backend source provenance → Cleared backend serde source provenance text) := by
  obtain ⟨wellCut, -⟩ := splitFrontmatter_eq_some_iff.mp split
  obtain ⟨-, -, blocksCut⟩ := keyBlocks_eq_some wellCut.yaml_terminated cuts
  obtain ⟨front, back, yaml, others, yamlEq, written⟩ :=
    @writeProvenance_cut Float64 backend serde provenance source records parts cut split cuts
      (fun block member => (blocksCut block member).1) prints.printed
  have joined : yaml = cut.preamble ++
      joinBlocks (withRecords provenance records front back) := by
    rw [yamlEq, joinBlocks_withRecords]
    simp
  have bare (none : provenance.isEmpty = true) :
      yaml = cut.preamble ++ joinBlocks (otherBlocks cut.blocks) := by
    rw [yamlEq, recordsText, if_pos none, ← others, joinBlocks_append]
    simp
  cases cleared : (cut.blocks.any fun block => block.key = provenanceKey) &&
      (trim yaml).isEmpty with
  | false =>
      rw [cleared] at written
      refine ⟨_, written, fun _ => withRecords_settles prints split cuts others takes joined, ?_⟩
      rintro ⟨rfl, own, _, same, sameCuts, held, blank⟩
      obtain rfl := Option.some.inj (split.symm.trans same)
      obtain rfl := Option.some.inj (cuts.symm.trans sameCuts)
      rw [held, bare rfl, blank] at cleared
      cases cleared
  | true =>
      rw [cleared] at written
      obtain ⟨held, blank⟩ := Bool.and_eq_true_iff.mp cleared
      have blank := List.isEmpty_iff.mp blank
      have none : provenance.isEmpty = true := by
        rw [yamlEq] at blank
        exact isEmpty_of_blank prints blank
      have empty := OrderedMap.eq_empty_of_isEmpty none
      rw [bare none] at blank
      refine ⟨_, written, ?_, fun _ => ⟨empty, ⟨parts, cut, split, cuts, held, blank, rfl⟩, ?_⟩⟩
      · exact fun other => absurd ⟨empty, parts, cut, split, cuts, held, blank⟩ other
      · intro unframed
        rw [empty]
        exact settled_unframed unframed

end

/-- Records are written into a page and read back, the rest of the page stays, and
writing them again changes nothing; only a frontmatter of nothing but the records
goes with them. -/
theorem writeProvenance_roundTrip (source : Text)
    (prints : PrintsRecords backend serde provenance records)
    (takes : ∀ parts, splitFrontmatter source = some parts →
      ∃ cut, keyBlocks backend.yaml parts.yaml = some cut ∧
        TakesRecords backend cut provenance records) :
    ∃ text, writeProvenance backend serde source provenance = .ok text ∧
      (¬ Clears backend source provenance →
        Rewritten backend source provenance text ∧ Settled backend serde provenance text) ∧
      (Clears backend source provenance → Cleared backend serde source provenance text) := by
  cases split : splitFrontmatter source with
  | none =>
      obtain ⟨text, written, rewritten, settled⟩ := writeProvenance_unframed prints split
      refine ⟨text, written, fun _ => ⟨rewritten, settled⟩, ?_⟩
      rintro ⟨-, parts, -, framed, -⟩
      rw [split] at framed
      cases framed
  | some parts =>
      obtain ⟨cut, cuts, takes⟩ := takes parts split
      exact writeProvenance_framed prints split cuts takes

end Pages

section Evaluating

/-- One section's record. -/
def oneRecord : Provenance :=
  ⟨[("aaaa1111".toList, ⟨[], some "x".toList, none, [], none⟩)], List.pairwise_singleton _ _⟩

def oneRecordText : Text := "reflection:\n  aaaa1111:\n    reflected: x\n".toList

/-- The record of another section. -/
def oldRecord : Provenance :=
  ⟨[("bbbb2222".toList, ⟨[], some "y".toList, none, [], none⟩)], List.pairwise_singleton _ _⟩

def oldRecordText : Text := "reflection:\n  bbbb2222:\n    reflected: y\n".toList

def titleText : Text := "title: T\n".toList

def titleValue : Value Unit × Value Unit := (.string "title".toList, .string "T".toList)

def recordsEntry (provenance : Provenance) : Value Unit × Value Unit :=
  (.string provenanceKey, recordsValue provenance)

/-- A reader of a title and one of the records. -/
def titleBackend : Backend Unit where
  fromStr text :=
    if text = titleText ∨ text = "\x7btitle: T\x7d\n".toList then .ok (.mapping [titleValue])
    else if text = oneRecordText then .ok (.mapping [recordsEntry oneRecord])
    else if text = oldRecordText then .ok (.mapping [recordsEntry oldRecord])
    else if text = titleText ++ oneRecordText then
      .ok (.mapping [titleValue, recordsEntry oneRecord])
    else if text = oneRecordText ++ titleText then
      .ok (.mapping [recordsEntry oneRecord, titleValue])
    else .error []
  toStr _ := []

/-- A printer of one record with one field. -/
def plainSerde : Serde Unit where
  print value :=
    match value with
    | .mapping [(.string key, .mapping [(.string id, .mapping [(.string field, .string text)])])] =>
        .ok (key ++ ":\n  ".toList ++ id ++ ":\n    ".toList ++ field ++ ": ".toList ++ text ++
          ['\n'])
    | _ => .error []
  readRecord value :=
    match value with
    | .mapping [(.string _, .string text)] => some ⟨[], some text, none, [], none⟩
    | _ => none

theorem prints_oneRecord : PrintsRecords titleBackend plainSerde oneRecord oneRecordText := by
  refine ⟨rfl, by decide, ⟨terminated_iff_getLast?.mpr (.inr (by decide)),
    "reflection:\n".toList, ["  aaaa1111:\n".toList, "    reflected: x\n".toList], by decide,
    ⟨by decide, by decide⟩, ?_⟩, rfl, ?_⟩
  · intro line member
    rcases List.mem_cons.mp member with rfl | member
    · exact ⟨by decide, by decide⟩
    · rw [List.mem_singleton.mp member]
      exact ⟨by decide, by decide⟩
  · intro entry member
    rw [List.mem_singleton.mp member]
    rfl

/-- A page that holds the record of another section above its title. -/
def recordedPage : Text := "---\n".toList ++ oldRecordText ++ titleText ++ "---\n\n# T\n".toList

def recordedCut : KeyBlocks (Value Unit) where
  preamble := []
  blocks :=
    [⟨provenanceKey, .string provenanceKey, oldRecordText, recordsValue oldRecord, 2⟩,
      ⟨"title".toList, .string "title".toList, titleText, .string "T".toList, 5⟩]

theorem takes_oneRecord : TakesRecords titleBackend recordedCut oneRecord oneRecordText := by
  constructor
  · intro front back whole
    have others : otherBlocks recordedCut.blocks =
        [⟨"title".toList, .string "title".toList, titleText, .string "T".toList, 5⟩] := rfl
    rw [others] at whole
    rcases List.append_eq_singleton_iff.mp whole with ⟨rfl, rfl⟩ | ⟨rfl, rfl⟩
    · rfl
    · rfl
  · intro entries read
    cases read
    rfl

theorem writeProvenance_roundTrip_title :
    ∃ text, writeProvenance titleBackend plainSerde recordedPage oneRecord = .ok text ∧
      Rewritten titleBackend recordedPage oneRecord text ∧
        Settled titleBackend plainSerde oneRecord text := by
  obtain ⟨text, written, stays, -⟩ :=
    writeProvenance_roundTrip recordedPage prints_oneRecord fun parts split => by
      have cut : splitFrontmatter recordedPage =
          some ⟨"---\n".toList, oldRecordText ++ titleText, "---\n".toList,
            "\n# T\n".toList⟩ := by decide
      rw [cut] at split
      cases split
      exact ⟨recordedCut, rfl, takes_oneRecord⟩
  exact ⟨text, written, stays fun clears => by cases clears.empty⟩

/-- A frontmatter in flow style reads, and is refused; and a page without
frontmatter gets a blank line in front of its text. -/
theorem flow_frontmatter_is_refused :
    titleBackend.yaml.readMapping "\x7btitle: T\x7d\n".toList = some [titleValue] ∧
      writeProvenance titleBackend plainSerde "---\n\x7btitle: T\x7d\n---\n".toList oneRecord =
        .error cannotCut ∧
      ∃ text, writeProvenance titleBackend plainSerde "# T\n".toList oneRecord = .ok text ∧
        splitFrontmatter text =
          some ⟨"---\n".toList, oneRecordText, "---\n".toList, "\n# T\n".toList⟩ :=
  ⟨rfl, rfl, "---\nreflection:\n  aaaa1111:\n    reflected: x\n---\n\n# T\n".toList, rfl, by decide⟩

end Evaluating

end Crystalline.Reflection
