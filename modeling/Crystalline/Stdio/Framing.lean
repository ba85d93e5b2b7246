import Crystalline.Stdio.Lines

/-!
# A stream is framed as the plain definition says

However its bytes arrive and whichever calls are cancelled, what stands between
two turns of the loop is one prefix of a line: buffered while it is within the
limit, scanned and dropped from where it crossed it.
-/

namespace Crystalline.Stdio

open BoundedLines

variable {Value : Type} {parse : Bytes → Option Value}

/-- The lines of a stream, each with its newline, behind the beginning of the
first; an unterminated rest is a line when it is not empty. -/
def linesFrom (line : Bytes) : Bytes → List Bytes
  | [] => if line = [] then [] else [line]
  | byte :: stream =>
      if byte = newline then (line ++ [byte]) :: linesFrom [] stream
      else linesFrom (line ++ [byte]) stream

/-- A line's bytes plus its newline, the missing one of the rest counted. -/
def counted (line : Bytes) : Nat :=
  if line.getLast? = some newline then line.length else line.length + 1

/-- The item a line is served as. -/
def frame (parse : Bytes → Option Value) (limit : Nat) (line : Bytes) : Incoming Value :=
  if counted line ≤ limit then .line (chomp line)
  else .oversized ⟨limit, (Scan.default.feed parse line).kind parse⟩

/-- The items a stream is served as. -/
def frames (parse : Bytes → Option Value) (limit : Nat) (stream : Bytes) :
    List (Incoming Value) :=
  (linesFrom [] stream).map (frame parse limit)

section

variable {line front : Bytes} (plain : newline ∉ front) (stream : Bytes)
include plain stream

theorem linesFrom_append : linesFrom line (front ++ stream) = linesFrom (line ++ front) stream := by
  induction front generalizing line with
  | nil => rw [List.nil_append, List.append_nil]
  | cons byte front induction =>
      obtain ⟨apart, rest⟩ := List.ne_and_not_mem_of_not_mem_cons plain
      rw [List.cons_append, linesFrom, if_neg fun same => apart same.symm, induction rest,
        List.append_assoc]
      rfl

theorem linesFrom_line :
    linesFrom line (front ++ newline :: stream) =
      (line ++ (front ++ [newline])) :: linesFrom [] stream := by
  rw [linesFrom_append plain, linesFrom, if_pos rfl, List.append_assoc]

end

theorem counted_open {line : Bytes} (plain : newline ∉ line) :
    counted line = line.length + 1 := by
  unfold counted
  rw [if_neg]
  exact fun last => plain (List.mem_of_getLast? last)

theorem counted_ended (line : Bytes) : counted (line ++ [newline]) = line.length + 1 := by
  unfold counted
  rw [if_pos List.getLast?_concat, List.length_append, List.length_singleton]

/-- A line is what is left of it and its end: none, `\n` after a byte that is no `\r`, or
`\r\n`. -/
theorem chomp_cases (line : Bytes) :
    (line.getLast? ≠ some newline ∧ line = chomp line) ∨
      ((chomp line).getLast? ≠ some carriageReturn ∧ line = chomp line ++ [newline]) ∨
        line = chomp line ++ [carriageReturn, newline] := by
  unfold chomp
  split
  · next last =>
    obtain ⟨front, rfl⟩ := List.getLast?_eq_some_iff.mp last
    rw [List.dropLast_concat]
    split
    · next before =>
      obtain ⟨start, rfl⟩ := List.getLast?_eq_some_iff.mp before
      right; right
      rw [List.dropLast_concat, List.append_assoc]
      rfl
    · next before => exact .inr (.inl ⟨before, rfl⟩)
  · next last => exact .inl ⟨last, rfl⟩

theorem length_chomp (line : Bytes) : (chomp line).length + 1 ≤ counted line := by
  rcases chomp_cases line with ⟨last, same⟩ | ⟨-, same⟩ | same
  · rw [← same, counted, if_neg last]
  · rw [same, counted_ended, ← same]
  · have ends : line = (chomp line ++ [carriageReturn]) ++ [newline] := by simpa using same
    rw [ends, counted_ended, ← ends, List.length_append]
    omega
variable {chunk : Bytes}

theorem position_none (absent : position chunk = none) : newline ∉ chunk := by
  unfold position at absent
  rw [List.findIdx?_eq_none_iff] at absent
  intro member
  simpa using absent newline member

theorem position_some {index : Nat} (found : position chunk = some index) :
    ∃ front back, chunk = front ++ newline :: back ∧ front.length = index ∧ newline ∉ front := by
  unfold position at found
  induction chunk generalizing index with
  | nil => cases found
  | cons byte chunk induction =>
      rw [List.findIdx?_cons] at found
      by_cases here : byte = newline
      · subst here
        simp only [decide_true, if_true, Option.some.injEq] at found
        exact ⟨[], chunk, rfl, found, List.not_mem_nil⟩
      · simp only [here, decide_false, Bool.false_eq_true, if_false, Option.map_eq_some_iff] at found
        obtain ⟨earlier, found, rfl⟩ := found
        obtain ⟨front, back, rfl, rfl, plain⟩ := induction found
        exact ⟨byte :: front, back, rfl, rfl, by
          simpa [List.mem_cons, plain] using fun same => here same.symm⟩

/-- The beginning of a line that was read: buffered, or over the limit and
scanned. -/
structure Holds (parse : Bytes → Option Value) (lines : BoundedLines Value) (held : Bytes) :
    Prop where
  replay : lines.replay = none
  plain : newline ∉ held
  stored : lines.discarding = false ∧ lines.line = held ∧ held.length ≤ lines.limit ∨
    lines.discarding = true ∧ lines.line = [] ∧ lines.scan = Scan.default.feed parse held ∧
      lines.limit < held.length

variable {lines next : BoundedLines Value} {held chunk : Bytes}

theorem holds_nil {lines : BoundedLines Value} (replay : lines.replay = none)
    (kept : lines.discarding = false) (empty : lines.line = []) : Holds parse lines [] :=
  ⟨replay, List.not_mem_nil, .inl ⟨kept, empty, Nat.zero_le _⟩⟩

/-- The part of the reader that is still to come, and the limit, which nothing
but `consume` changes. -/
structure SameSource (next lines : BoundedLines Value) : Prop where
  reader : next.reader = lines.reader
  limit : next.limit = lines.limit

section

variable (holds : Holds parse lines held)
include holds

/-- A chunk without a newline lengthens what is held. -/
theorem acceptChunk_open (plain : newline ∉ chunk) :
    (lines.acceptChunk parse chunk false).1 = none ∧
      Holds parse (lines.acceptChunk parse chunk false).2 (held ++ chunk) ∧
      SameSource (lines.acceptChunk parse chunk false).2 lines := by
  have free : newline ∉ held ++ chunk := by
    rw [List.mem_append]
    exact fun member => member.elim holds.plain plain
  unfold acceptChunk
  rcases holds.stored with ⟨kept, buffered, short⟩ | ⟨dropping, empty, scanned, long⟩
  · rw [if_neg (by simp [kept]), buffered]
    split
    · next crossed =>
      refine ⟨rfl, ⟨holds.replay, free, .inr ⟨rfl, rfl, Scan.feed_append _ _ _ _, ?_⟩⟩, rfl, rfl⟩
      rwa [List.length_append]
    · next within =>
      refine ⟨rfl, ⟨holds.replay, free, .inl ⟨kept, rfl, ?_⟩⟩, rfl, rfl⟩
      rw [List.length_append]
      exact Nat.not_lt.mp within
  · rw [if_pos dropping, scanned]
    refine ⟨rfl, ⟨holds.replay, free, .inr ⟨dropping, empty, Scan.feed_append _ _ _ _, ?_⟩⟩,
      rfl, rfl⟩
    change lines.limit < (held ++ chunk).length
    rw [List.length_append]
    omega

/-- A chunk that ends with its newline ends the line, and what was held is
served with it. -/
theorem acceptChunk_ended :
    (lines.acceptChunk parse (chunk ++ [newline]) true).1 =
        some (frame parse lines.limit (held ++ (chunk ++ [newline]))) ∧
      Holds parse (lines.acceptChunk parse (chunk ++ [newline]) true).2 [] ∧
      SameSource (lines.acceptChunk parse (chunk ++ [newline]) true).2 lines := by
  have size : counted (held ++ (chunk ++ [newline])) = held.length + (chunk ++ [newline]).length := by
    rw [← List.append_assoc, counted_ended]
    simp only [List.length_append, List.length_singleton]
    omega
  unfold acceptChunk
  rcases holds.stored with ⟨kept, buffered, short⟩ | ⟨dropping, empty, scanned, long⟩
  · rw [if_neg (by simp [kept]), buffered]
    split
    · next crossed =>
      refine ⟨?_, holds_nil holds.replay rfl rfl, rfl, rfl⟩
      rw [frame, size, if_neg (Nat.not_le.mpr crossed),
        ← Scan.feed_append parse Scan.default held (chunk ++ [newline])]
      rfl
    · next within =>
      refine ⟨?_, holds_nil holds.replay kept rfl, rfl, rfl⟩
      rw [frame, size, if_pos (Nat.not_lt.mp within)]
      rfl
  · rw [if_pos dropping, scanned]
    refine ⟨?_, holds_nil holds.replay rfl empty, rfl, rfl⟩
    have tooLong : ¬ counted (held ++ (chunk ++ [newline])) ≤ lines.limit := by
      rw [size]
      omega
    rw [frame, if_neg tooLong, ← Scan.feed_append parse Scan.default held (chunk ++ [newline])]
    rfl

/-- At the end of input what is held is the rest of the stream. -/
theorem atEnd_answers :
    (lines.atEnd parse).1 =
        (if held = [] then none else some (frame parse lines.limit held)) ∧
      Holds parse (lines.atEnd parse).2 [] ∧ SameSource (lines.atEnd parse).2 lines := by
  have size := counted_open holds.plain
  unfold atEnd
  rcases holds.stored with ⟨kept, buffered, short⟩ | ⟨dropping, empty, scanned, long⟩
  · rw [if_neg (by simp [kept]), buffered]
    by_cases none : held = []
    · rw [if_pos none, if_pos none]
      exact ⟨rfl, holds_nil holds.replay kept (buffered.trans none), rfl, rfl⟩
    · rw [if_neg none, if_neg none, frame, size]
      split
      · next tooLong =>
        rw [if_neg (Nat.not_le.mpr tooLong)]
        exact ⟨rfl, holds_nil holds.replay rfl rfl, rfl, rfl⟩
      · next within =>
        rw [if_pos (Nat.not_lt.mp within)]
        refine ⟨?_, holds_nil holds.replay kept rfl, rfl, rfl⟩
        change some (Incoming.line (chomp lines.line)) = _
        rw [buffered]
  · have some : held ≠ [] := by
      rintro rfl
      exact absurd long (Nat.not_lt.mpr (Nat.zero_le _))
    rw [if_pos dropping, if_neg some, frame, if_neg (by omega), ← scanned]
    exact ⟨rfl, holds_nil holds.replay rfl empty, rfl, rfl⟩

end

/-- The bytes still to come. -/
def BoundedLines.coming (lines : BoundedLines Value) : Bytes := lines.reader.flatten

/-- The lines still to serve. -/
structure Ahead (parse : Bytes → Option Value) (limit : Nat) (lines : BoundedLines Value)
    (ahead : List Bytes) : Prop where
  filled : ∀ chunk ∈ lines.reader, chunk ≠ []
  limit : lines.limit = limit
  held : ∃ held, Holds parse lines held ∧ linesFrom held lines.coming = ahead

variable {limit : Nat} {ahead : List Bytes}

theorem ahead_new {reader : List Bytes} (filled : ∀ chunk ∈ reader, chunk ≠ []) :
    Ahead parse limit (BoundedLines.new reader limit : BoundedLines Value)
      (linesFrom [] reader.flatten) :=
  ⟨filled, rfl, [], holds_nil rfl rfl rfl, rfl⟩

theorem buffered_le (stands : Ahead parse limit lines ahead) : lines.line.length ≤ limit := by
  obtain ⟨held, holds, -⟩ := stands.held
  rw [← stands.limit]
  rcases holds.stored with ⟨-, buffered, short⟩ | ⟨-, empty, -⟩
  · rwa [buffered]
  · rw [empty]
    exact Nat.zero_le _

/-- Consuming a chunk leaves the ones behind it, and consuming its front leaves
its back as well. -/
theorem consume_reader {chunks : List Bytes} {count : Nat} (reader : lines.reader = chunk :: chunks)
    (within : count ≤ chunk.length) (filled : ∀ chunk ∈ lines.reader, chunk ≠ []) :
    (lines.consume count).coming = chunk.drop count ++ chunks.flatten ∧
      ∀ chunk ∈ (lines.consume count).reader, chunk ≠ [] := by
  rw [reader] at filled
  have behind : ∀ other ∈ chunks, other ≠ [] := fun other member =>
    filled other (List.mem_cons_of_mem _ member)
  unfold consume coming
  rw [reader]
  dsimp only
  split
  · next short =>
    refine ⟨rfl, fun other member => ?_⟩
    rcases List.mem_cons.mp member with rfl | later
    · intro none
      rw [List.drop_eq_nil_iff] at none
      omega
    · exact behind other later
  · next whole =>
    rw [List.drop_eq_nil_of_le (by omega)]
    exact ⟨rfl, behind⟩

theorem holds_consume {count : Nat} (holds : Holds parse lines held) :
    Holds parse (lines.consume count) held ∧ (lines.consume count).limit = lines.limit := by
  unfold consume
  cases lines.reader with
  | nil => exact ⟨holds, rfl⟩
  | cons chunk chunks => exact ⟨⟨holds.replay, holds.plain, holds.stored⟩, rfl⟩

/-- What a turn may end with: fewer bytes to come and the same lines to serve,
the first of them served, or the end of input. -/
def Turned (parse : Bytes → Option Value) (limit : Nat) (lines : BoundedLines Value)
    (ahead : List Bytes) : Progress Value → BoundedLines Value → Prop
  | .waiting, next =>
      Ahead parse limit next ahead ∧ next.coming.length < lines.coming.length
  | .answered (some item), next =>
      ∃ line rest, ahead = line :: rest ∧ item = frame parse limit line ∧
        Ahead parse limit next rest ∧ next.coming.length ≤ lines.coming.length
  | .answered none, next => ahead = [] ∧ Ahead parse limit next []

section

variable (stands : Ahead parse limit lines ahead)
include stands

theorem turn_end (done : lines.reader = []) :
    Turned parse limit lines ahead (lines.turn parse).1 (lines.turn parse).2 := by
  obtain ⟨filled, rfl, held, holds, rfl⟩ := stands
  obtain ⟨answer, empty, source⟩ := atEnd_answers holds
  have stop : Ahead parse lines.limit (lines.atEnd parse).2 [] := by
    refine ⟨?_, source.limit, [], empty, ?_⟩
    · rwa [source.reader]
    · rw [coming, source.reader, done]
      rfl
  have turned : lines.turn parse = (.answered (lines.atEnd parse).1, (lines.atEnd parse).2) := by
    unfold turn fillBuf
    rw [done]
    rfl
  rw [turned, answer]
  have none : lines.coming = [] := by
    rw [coming, done]
    rfl
  rw [none]
  by_cases idle : held = []
  · rw [if_pos idle, linesFrom, if_pos idle]
    exact ⟨rfl, stop⟩
  · rw [if_neg idle, linesFrom, if_neg idle]
    refine ⟨held, [], rfl, rfl, stop, ?_⟩
    rw [coming, source.reader]
    exact Nat.le_refl _

theorem turn_chunk {chunks : List Bytes} (reader : lines.reader = chunk :: chunks) :
    Turned parse limit lines ahead (lines.turn parse).1 (lines.turn parse).2 := by
  obtain ⟨filled, rfl, held, holds, rfl⟩ := stands
  have some : chunk ≠ [] := filled chunk (by rw [reader]; exact List.mem_cons_self)
  have coming : lines.coming = chunk ++ chunks.flatten := by
    rw [BoundedLines.coming, reader]
    rfl
  have available : lines.fillBuf = chunk := by
    rw [fillBuf, reader]
    rfl
  unfold turn
  rw [available]
  dsimp only
  rw [if_neg some]
  cases found : position chunk with
  | none =>
      have plain := position_none found
      obtain ⟨silent, longer, source⟩ := @acceptChunk_open _ parse lines held chunk holds plain
      simp only [Option.map_none, Option.getD_none, List.take_length, Option.isSome_none, silent]
      obtain ⟨left, still⟩ := consume_reader (source.reader.trans reader) (Nat.le_refl _)
        (by rwa [source.reader])
      obtain ⟨kept, same⟩ := @holds_consume _ parse _ _ chunk.length longer
      rw [List.drop_length, List.nil_append] at left
      refine ⟨⟨still, same.trans source.limit, held ++ chunk, kept, ?_⟩, ?_⟩
      · rw [left, coming, linesFrom_append plain]
      · have pos := List.length_pos_iff.mpr some
        rw [left, coming, List.length_append]
        omega
  | some index =>
      obtain ⟨front, back, rfl, rfl, plain⟩ := position_some found
      have taken : (front ++ newline :: back).take (front.length + 1) = front ++ [newline] := by
        rw [List.take_length_add_append]
        rfl
      have rest : (front ++ newline :: back).drop (front.length + 1) = back := by
        rw [List.drop_length_add_append]
        rfl
      obtain ⟨served, empty, source⟩ := @acceptChunk_ended _ parse lines held front holds
      simp only [Option.map_some, Option.getD_some, taken, Option.isSome_some, served]
      obtain ⟨left, still⟩ := @consume_reader _ _ _ _ (front.length + 1)
        (source.reader.trans reader) (by simp) (by rwa [source.reader])
      obtain ⟨kept, same⟩ := @holds_consume _ parse _ _ (front.length + 1) empty
      rw [rest] at left
      refine ⟨held ++ (front ++ [newline]), linesFrom [] (back ++ chunks.flatten), ?_, rfl,
        ⟨still, same.trans source.limit, [], kept, by rw [left]⟩, ?_⟩
      · rw [coming, List.append_assoc, List.cons_append, linesFrom_line plain]
      · rw [left, coming]
        simp only [List.length_append, List.length_cons]
        omega

theorem turn_turned : Turned parse limit lines ahead (lines.turn parse).1 (lines.turn parse).2 := by
  cases reader : lines.reader with
  | nil => exact turn_end stands reader
  | cons chunk chunks => exact turn_chunk stands reader

end

theorem turns_turned (patience : Nat) (stands : Ahead parse limit lines ahead) :
    (lines.turns parse patience).1 = .waiting ∧
        Ahead parse limit (lines.turns parse patience).2 ahead ∨
      (lines.turns parse patience).1 ≠ .waiting ∧
        Turned parse limit lines ahead (lines.turns parse patience).1
          (lines.turns parse patience).2 := by
  induction patience generalizing lines with
  | zero => exact .inl ⟨rfl, stands⟩
  | succ patience induction =>
      have turned := turn_turned stands
      unfold turns
      generalize lines.turn parse = outcome at turned
      obtain ⟨progress, next⟩ := outcome
      cases progress with
      | waiting =>
          obtain ⟨still, fewer⟩ := turned
          rcases induction still with waiting | ⟨done, answered⟩
          · exact .inl waiting
          · refine .inr ⟨done, ?_⟩
            dsimp only
            generalize next.turns parse patience = last at done answered
            obtain ⟨progress, last⟩ := last
            cases progress with
            | waiting => exact absurd rfl done
            | answered item =>
                cases item with
                | none => exact answered
                | some item =>
                    obtain ⟨line, rest, served, framed, behind, less⟩ := answered
                    exact ⟨line, rest, served, framed, behind, Nat.le_trans less (Nat.le_of_lt fewer)⟩
      | answered item => exact .inr ⟨fun same => (by cases same), turned⟩

theorem turns_answer {patience : Nat} (stands : Ahead parse limit lines ahead)
    (patient : lines.coming.length < patience) :
    ∃ item, (lines.turns parse patience).1 = .answered item := by
  induction patience generalizing lines with
  | zero => cases patient
  | succ patience induction =>
      have turned := turn_turned stands
      unfold turns
      generalize lines.turn parse = outcome at turned
      obtain ⟨progress, next⟩ := outcome
      cases progress with
      | waiting =>
          obtain ⟨still, fewer⟩ := turned
          dsimp only at fewer
          exact induction still (by omega)
      | answered item => exact ⟨item, rfl⟩

theorem replay_none (stands : Ahead parse limit lines ahead) : lines.replay = none := by
  obtain ⟨held, holds, -⟩ := stands.held
  exact holds.replay

theorem nextLine_eq (stands : Ahead parse limit lines ahead) (patience : Nat) :
    lines.nextLine parse patience = lines.turns parse patience := by
  unfold nextLine
  rw [replay_none stands]

/-- A session serves lines from the front, and answers the end of input once
none is left. -/
theorem session_serves (patiences : List Nat) (stands : Ahead parse limit lines ahead) :
    ∃ served rest ended, ahead = served ++ rest ∧
      (lines.session parse patiences).1 =
        (served.map (frame parse limit)).map some ++ List.replicate ended none ∧
      (0 < ended → rest = []) ∧ Ahead parse limit (lines.session parse patiences).2 rest := by
  induction patiences generalizing lines ahead with
  | nil => exact ⟨[], ahead, 0, rfl, rfl, fun none => absurd none (Nat.lt_irrefl 0), stands⟩
  | cons patience patiences induction =>
      have turned := turns_turned patience stands
      rw [← nextLine_eq stands patience] at turned
      unfold session
      generalize lines.nextLine parse patience = outcome at turned
      obtain ⟨progress, next⟩ := outcome
      cases progress with
      | waiting =>
          rcases turned with ⟨-, still⟩ | ⟨done, -⟩
          · exact induction still
          · exact absurd rfl done
      | answered item =>
          rcases turned with ⟨waiting, -⟩ | ⟨-, answered⟩
          · cases waiting
          · cases item with
            | none =>
                obtain ⟨rfl, empty⟩ := answered
                obtain ⟨served, rest, ended, whole, items, -, behind⟩ := induction empty
                obtain ⟨rfl, rfl⟩ := List.append_eq_nil_iff.mp whole.symm
                refine ⟨[], [], ended + 1, rfl, ?_, fun _ => rfl, behind⟩
                change none :: (next.session parse patiences).1 = _
                rw [items]
                rfl
            | some item =>
                obtain ⟨line, left, rfl, rfl, behind, -⟩ := answered
                obtain ⟨served, rest, ended, rfl, items, through, last⟩ := induction behind
                refine ⟨line :: served, rest, ended, rfl, ?_, through, last⟩
                change some (frame parse limit line) :: (next.session parse patiences).1 = _
                rw [items]
                rfl

/-- What any number of calls on a stream answers, some of them cancelled. -/
structure Framed (parse : Bytes → Option Value) (limit : Nat) (stream : Bytes)
    (items : List (Option (Incoming Value))) (lines : BoundedLines Value) : Prop where
  inOrder : ∃ served ended, served <+: frames parse limit stream ∧
    (0 < ended → served = frames parse limit stream) ∧
    items = served.map some ++ List.replicate ended none
  buffered : lines.line.length ≤ limit
  within : ∀ line, some (.line line) ∈ items → line.length + 1 ≤ limit
  answers : ∀ patience, lines.coming.length < patience →
    ∃ item, (lines.nextLine parse patience).1 = .answered item

/-- The line reader frames a stream as the plain definition says, however it
arrives. -/
theorem bounded_lines_frame (parse : Bytes → Option Value) (limit : Nat) (reader : List Bytes)
    (filled : ∀ chunk ∈ reader, chunk ≠ []) (patiences : List Nat) :
    Framed parse limit reader.flatten
      ((BoundedLines.new reader limit).session parse patiences).1
      ((BoundedLines.new reader limit).session parse patiences).2 := by
  obtain ⟨served, rest, ended, whole, items, through, stands⟩ :=
    session_serves patiences (@ahead_new _ parse limit reader filled)
  constructor
  · refine ⟨served.map (frame parse limit), ended, ?_, fun none => ?_, items⟩
    · rw [frames, whole, List.map_append]
      exact List.prefix_append _ _
    · rw [frames, whole, through none, List.append_nil]
  · exact buffered_le stands
  · intro line member
    rw [items, List.mem_append] at member
    rcases member with here | none
    · obtain ⟨item, among, same⟩ := List.mem_map.mp here
      obtain ⟨bytes, -, framed⟩ := List.mem_map.mp among
      rw [Option.some.inj same, frame] at framed
      split at framed
      · next short =>
        obtain rfl := Incoming.line.inj framed
        exact Nat.le_trans (length_chomp bytes) short
      · cases framed
    · cases List.eq_of_mem_replicate none
  · intro patience patient
    rw [nextLine_eq stands]
    exact turns_answer stands patient

/-- Two lines in three chunks, the second over the limit, and a call cancelled
before anything arrived. -/
theorem bounded_lines_frame_split :
    Framed (fun _ => (none : Option Nat)) 3 [97, 98, 10, 99, 100, 101, 10]
      ((BoundedLines.new [[97], [98, 10, 99], [100, 101, 10]] 3).session
        (fun _ => (none : Option Nat)) [0, 4, 4, 4]).1
      ((BoundedLines.new [[97], [98, 10, 99], [100, 101, 10]] 3).session
        (fun _ => (none : Option Nat)) [0, 4, 4, 4]).2 :=
  bounded_lines_frame _ 3 [[97], [98, 10, 99], [100, 101, 10]] (by decide) [0, 4, 4, 4]

example : ((BoundedLines.new [[97], [98, 10, 99], [100, 101, 10]] 3).session
    (fun _ => (none : Option Nat)) [0, 4, 4, 4]).1 =
      [some (.line [97, 98]), some (.oversized ⟨3, .request none⟩), none] := by decide

end Crystalline.Stdio
