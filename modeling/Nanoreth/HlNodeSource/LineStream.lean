import Nanoreth.HlNodeSource.Scan
import Nanoreth.Lib.Lines

/-!
# Tailing a file of a local node

The files of a local node are read while they are written (`sources/hl_node/scan.rs`). A
`LineStream` is a cursor in such a file: `LineStream.next` reads up to the next newline, and
goes back if there is none. The writer may be caught anywhere, inside a line or inside a
character (`TailEvent`).

What the lines should be is said by a `LineReader`, which counts the lines it has returned: it
returns the next line that is complete, without its line ending, as the empty text if it
is no text, and nothing as long as there is none. The strings it returns are
the first lines of the file (`LineReader.strings_run`).

The stream returns the same if and only if every call is *clean* (`LineStream.tail_iff`). A call
is not when

* the next line is text ending with a carriage return: the stream looks for it after the
  newline, which it has not removed yet, and so keeps it;
* there is no complete line, and what there is of the next one is no text: the stream returns
  the empty text, and goes on after these bytes.

A scan of a file that stands still is one of the lines that have not been read
(`Agree.scanStream`).
-/

namespace Nanoreth

open Lines

/-- The byte at the end of a line. -/
def newline : UInt8 := 10

/-- The byte that may come before the newline. -/
def carriageReturn : UInt8 := 13

/-- A cursor in a file. -/
structure LineStream where
  path : String
  position : ℕ
  deriving DecidableEq

namespace LineStream

/-- A stream from the beginning of a file. -/
def fromPath (path : String) : LineStream where
  path := path
  position := 0

/-- Whether a line ends with a character. -/
def endsWith (line : String) (c : Char) : Bool := line.toList.getLast? == some c

/-- The line without its last character. -/
def pop (line : String) : String := String.ofList line.toList.dropLast

/-- The next line of a file with the bytes `content`. -/
def next (content : List UInt8) (s : LineStream) : Option String × LineStream :=
  let lineBuffer := readUntil newline (content.drop s.position)
  let size := lineBuffer.length
  let reader := { s with position := s.position + size }
  match fromUtf8 lineBuffer with
  | none => (some "", reader)
  | some line =>
    if endsWith line '\n' then
      -- Its last character is the newline, so this is never the case.
      let line := if endsWith line '\r' then pop line else line
      (some (pop line), reader)
    else if size ≠ 0 then
      -- The line is not complete: it is read again by the next call.
      (none, { reader with position := reader.position - size })
    else (none, reader)

/-- The lines that the loop `while let Some(line) = line_stream.next()` reads, with the stream
    it leaves. -/
def readLines (content : List UInt8) : ℕ → LineStream → List String × LineStream
  | 0, s => ([], s)
  | fuel + 1, s =>
    match s.next content with
    | (some line, s') =>
      let (rest, final) := readLines content fuel s'
      (line :: rest, final)
    | (none, s') => ([], s')

end LineStream

/-- A scan of what has not been read of a file. There are no more lines than bytes. -/
def Scanner.scanStream (fromStr : String → Option LocalBlockAndReceipts) (content : List UInt8)
    (s : LineStream) (options : ScanOptions) : ScanResult × LineStream :=
  let (lines, final) := s.readLines content (content.length + 1)
  (scanHourFile fromStr s.path lines options, final)

/-! ## What is to be returned -/

/-- What happens to a file that is read while it is written. -/
inductive TailEvent
  | append (bytes : List UInt8)
  | next

/-- A reader that has returned a number of lines. -/
structure LineReader where
  returned : ℕ
  deriving DecidableEq

/-- A line without the carriage return of its line ending. -/
def stripCarriageReturn (line : List UInt8) : List UInt8 :=
  if line.getLast? = some carriageReturn then line.dropLast else line

/-- The text of a line. -/
def lineText (line : List UInt8) : String := (fromUtf8 (stripCarriageReturn line)).getD ""

namespace LineReader

/-- The next line of a file, read as it is now. -/
def next (content : List UInt8) (r : LineReader) : Option String × LineReader :=
  match (lines newline content)[r.returned]? with
  | some line => (some (lineText line), ⟨r.returned + 1⟩)
  | none => (none, r)

end LineReader

/-- A reader, run from the content `content`, with what it returns at each call and the content and
    the reader that are left. -/
def runEvents {R : Type} (next : List UInt8 → R → Option String × R) :
    List TailEvent → List UInt8 → R → List (Option String) × List UInt8 × R
  | [], content, r => ([], content, r)
  | .append bytes :: events, content, r => runEvents next events (content ++ bytes) r
  | .next :: events, content, r =>
    let (line, r') := next content r
    let (outputs, final) := runEvents next events content r'
    (line :: outputs, final)

section

variable {content : List UInt8} {events : List TailEvent} {l : List UInt8} {t : String}

/-! ## The texts of lines -/

theorem utf8EncodeChar_newline : String.utf8EncodeChar '\n' = [newline] := by decide

theorem utf8EncodeChar_carriageReturn : String.utf8EncodeChar '\r' = [carriageReturn] := by
  decide

@[simp]
theorem LineStream.endsWith_push (t : String) (c c' : Char) :
    endsWith (t.push c) c' = (c == c') := by
  simp [endsWith]

@[simp]
theorem LineStream.pop_push (t : String) (c : Char) : pop (t.push c) = t := by
  simp [pop]

/-- A text that ends with a newline has one in its bytes. -/
theorem LineStream.newline_mem_of_endsWith (ht : fromUtf8 l = some t) (h : endsWith t '\n') :
    newline ∈ l := by
  rw [endsWith, beq_iff_eq, List.getLast?_eq_some_iff] at h
  obtain ⟨cs, hcs⟩ := h
  rw [fromUtf8_eq_some_iff, hcs, encode_append, encode_cons, utf8EncodeChar_newline] at ht
  rw [← ht]
  exact List.mem_append_right _ List.mem_cons_self

/-- A line that is not text is read as the empty text. -/
theorem lineText_of_none (h : fromUtf8 l = none) : lineText l = "" := by
  rw [lineText, stripCarriageReturn]
  split
  · rename_i hcr
    obtain ⟨l, rfl⟩ := List.getLast?_eq_some_iff.1 hcr
    rw [fromUtf8_concat utf8EncodeChar_carriageReturn, Option.map_eq_none_iff] at h
    rw [List.dropLast_concat, h, Option.getD_none]
  · rw [h, Option.getD_none]

theorem lineText_of_some (h : fromUtf8 l = some t) (hcr : l.getLast? ≠ some carriageReturn) :
    lineText l = t := by
  rw [lineText, stripCarriageReturn, if_neg hcr, h, Option.getD_some]

/-- A carriage return at the end is dropped. -/
theorem lineText_ne (h : fromUtf8 l = some t) (hcr : l.getLast? = some carriageReturn) :
    lineText l ≠ t := by
  obtain ⟨l', rfl⟩ := List.getLast?_eq_some_iff.1 hcr
  rw [fromUtf8_concat utf8EncodeChar_carriageReturn, Option.map_eq_some_iff] at h
  obtain ⟨t', ht', rfl⟩ := h
  rw [lineText, stripCarriageReturn, if_pos hcr, List.dropLast_concat, ht', Option.getD_some]
  intro heq
  have hlength := congrArg String.length heq
  rw [String.length_push] at hlength
  omega

/-! ## One call -/

/-- The call that the reader `r` makes finds a line that is not text ending with a carriage
    return, or no line and a tail that is text. -/
def CleanNext (content : List UInt8) (r : LineReader) : Prop :=
  match (lines newline content)[r.returned]? with
  | some line => (fromUtf8 line).isSome → line.getLast? ≠ some carriageReturn
  | none => (fromUtf8 (tail newline content)).isSome

/-- The cursor stands after the lines that the reader has returned. -/
structure Agree (content : List UInt8) (s : LineStream) (r : LineReader) : Prop where
  returned_le : r.returned ≤ (lines newline content).length
  position_eq : s.position = (unlines newline ((lines newline content).take r.returned)).length

variable {s : LineStream} {r : LineReader}

theorem agree_fromPath (path : String) : Agree [] (LineStream.fromPath path) ⟨0⟩ where
  returned_le := Nat.zero_le _
  position_eq := rfl

/-- The stream and the reader agree after more bytes were appended. -/
theorem Agree.append (h : Agree content s r) (bytes : List UInt8) :
    Agree (content ++ bytes) s r where
  returned_le := by
    rw [lines_append, List.length_append]
    exact Nat.le_add_right_of_le h.returned_le
  position_eq := by
    rw [lines_append, List.take_append_of_le_length h.returned_le]
    exact h.position_eq

/-- What the stream has not read: the lines that have not been returned, and the tail. -/
theorem Agree.drop_position (h : Agree content s r) :
    content.drop s.position =
      unlines newline ((lines newline content).drop r.returned) ++ tail newline content := by
  have hcontent := unlines_lines_append_tail (d := newline) content
  rw [← List.take_append_drop r.returned (lines newline content), unlines_append,
    List.append_assoc] at hcontent
  calc content.drop s.position
      = (unlines newline ((lines newline content).take r.returned) ++
          (unlines newline ((lines newline content).drop r.returned) ++
            tail newline content)).drop
          (unlines newline ((lines newline content).take r.returned)).length := by
        rw [hcontent, h.position_eq]
    _ = _ := List.drop_left

/-- The stream returns a complete line and moves past it. -/
theorem LineStream.next_of_line {rest : List UInt8} (hl : newline ∉ l)
    (h : content.drop s.position = l ++ newline :: rest) :
    s.next content =
      (some ((fromUtf8 l).getD ""), { s with position := s.position + (l.length + 1) }) := by
  simp only [next, h, readUntil_append_cons hl, fromUtf8_concat utf8EncodeChar_newline]
  cases fromUtf8 l <;> simp

/-- The stream waits for the end of an incomplete line, but skips bytes that are not text. -/
theorem LineStream.next_of_tail (htail : newline ∉ l) (h : content.drop s.position = l) :
    s.next content =
      if (fromUtf8 l).isSome then (none, s)
      else (some "", { s with position := s.position + l.length }) := by
  simp only [next, h, readUntil_of_notMem htail]
  cases ht : fromUtf8 l with
  | none => simp
  | some t =>
    have hend : endsWith t '\n' = false := by
      rw [← Bool.not_eq_true]
      exact fun hend => htail (newline_mem_of_endsWith ht hend)
    simp [hend]

theorem LineReader.next_of_some (h : (lines newline content)[r.returned]? = some l) :
    r.next content = (some (lineText l), ⟨r.returned + 1⟩) := by
  rw [next, h]

theorem LineReader.next_of_none (h : (lines newline content)[r.returned]? = none) :
    r.next content = (none, r) := by
  rw [next, h]

/-- What both return for a complete line. -/
theorem Agree.next_line (h : Agree content s r)
    (hl : (lines newline content)[r.returned]? = some l) :
    s.next content =
      (some ((fromUtf8 l).getD ""), { s with position := s.position + (l.length + 1) }) ∧
      Agree content { s with position := s.position + (l.length + 1) } ⟨r.returned + 1⟩ := by
  obtain ⟨hlt, hget⟩ := List.getElem?_eq_some_iff.1 hl
  constructor
  · have hdrop := h.drop_position
    rw [List.drop_eq_getElem_cons hlt, hget, unlines_cons, List.append_assoc,
      List.cons_append] at hdrop
    refine LineStream.next_of_line ?_ hdrop
    exact notMem_of_mem_lines content l (hget ▸ List.getElem_mem hlt)
  · refine ⟨hlt, ?_⟩
    rw [List.take_add_one, hl, unlines_append, List.length_append, ← h.position_eq]
    simp

/-- What the stream does with an incomplete line. -/
theorem Agree.next_tail (h : Agree content s r)
    (hnone : (lines newline content)[r.returned]? = none) :
    s.next content =
      if (fromUtf8 (tail newline content)).isSome then (none, s)
      else (some "", { s with position := s.position + (tail newline content).length }) := by
  refine LineStream.next_of_tail (notMem_tail content) ?_
  rw [h.drop_position, List.drop_eq_nil_of_le (List.getElem?_eq_none_iff.1 hnone), unlines_nil,
    List.nil_append]

/-- A call returns what it should if and only if it is clean. -/
theorem Agree.next_eq_iff (h : Agree content s r) :
    (s.next content).1 = (r.next content).1 ↔ CleanNext content r := by
  unfold CleanNext
  cases hl : (lines newline content)[r.returned]? with
  | some l =>
    rw [(h.next_line hl).1, LineReader.next_of_some hl]
    cases ht : fromUtf8 l with
    | none => simp [lineText_of_none ht, ht]
    | some t =>
      by_cases hcr : l.getLast? = some carriageReturn
      · -- The stream returns the carriage return with the line.
        simpa [hcr, ht] using (lineText_ne ht hcr).symm
      · simp [lineText_of_some ht hcr, hcr]
  | none =>
    -- A tail that is not UTF-8 is skipped as if it were a line.
    rw [h.next_tail hl, LineReader.next_of_none hl]
    cases fromUtf8 (tail newline content) <;> simp

/-- The cursor stays where it should after a clean call. -/
theorem Agree.next (h : Agree content s r) (hclean : CleanNext content r) :
    Agree content (s.next content).2 (r.next content).2 := by
  unfold CleanNext at hclean
  cases hl : (lines newline content)[r.returned]? with
  | some l =>
    obtain ⟨hnext, hagree⟩ := h.next_line hl
    rw [hnext, LineReader.next_of_some hl]
    exact hagree
  | none =>
    rw [hl] at hclean
    rw [h.next_tail hl, if_pos hclean, LineReader.next_of_none hl]
    exact h

/-! ## Runs -/

/-- Every call of a run is clean. -/
def Clean : List TailEvent → List UInt8 → LineReader → Prop
  | [], _, _ => True
  | .append bytes :: events, content, r => Clean events (content ++ bytes) r
  | .next :: events, content, r =>
    CleanNext content r ∧ Clean events content (r.next content).2

/-- Both return the same as long as what they read is clean. -/
theorem Agree.outputs_eq_iff (h : Agree content s r) :
    (runEvents LineStream.next events content s).1 =
        (runEvents LineReader.next events content r).1 ↔
      Clean events content r := by
  induction events generalizing content s r with
  | nil => simp [runEvents, Clean]
  | cons event events ih =>
    cases event with
    | append bytes => exact ih (h.append bytes)
    | next =>
      simp only [runEvents, Clean, List.cons.injEq, h.next_eq_iff]
      exact and_congr_right fun hclean => ih (h.next hclean)

/-- The stream and the reader agree after they read what is clean. -/
theorem Agree.run (h : Agree content s r) (hclean : Clean events content r) :
    Agree (runEvents LineStream.next events content s).2.1
      (runEvents LineStream.next events content s).2.2
      (runEvents LineReader.next events content r).2.2 := by
  induction events generalizing content s r with
  | nil => exact h
  | cons event events ih =>
    cases event with
    | append bytes => exact ih (h.append bytes) hclean
    | next => exact ih (h.next hclean.1) hclean.2

/-- The bytes that are written in a run. -/
def tailWrites (events : List TailEvent) : List UInt8 :=
  events.flatMap fun
    | .append bytes => bytes
    | .next => []

/-- No reader changes the file. -/
theorem content_runEvents {R : Type} (next : List UInt8 → R → Option String × R) (r : R) :
    (runEvents next events content r).2.1 = content ++ tailWrites events := by
  induction events generalizing content r with
  | nil => simp [runEvents, tailWrites]
  | cons event events ih =>
    cases event with
    | append bytes =>
      rw [runEvents, ih, List.append_assoc]
      rfl
    | next =>
      rw [runEvents, ih]
      rfl

/-- The strings that are returned. -/
def strings (outputs : List (Option String)) : List String := outputs.filterMap id

theorem strings_cons (line : Option String) (outputs : List (Option String)) :
    strings (line :: outputs) = line.toList ++ strings outputs := by
  cases line <;> rfl

/-- The reader has returned the first lines, in order. -/
theorem LineReader.strings_next (h : r.returned ≤ (lines newline content).length) :
    (r.next content).2.returned ≤ (lines newline content).length ∧
      ((lines newline content).take (r.next content).2.returned).map lineText =
        ((lines newline content).take r.returned).map lineText ++
          (r.next content).1.toList := by
  cases hl : (lines newline content)[r.returned]? with
  | some l =>
    obtain ⟨hlt, -⟩ := List.getElem?_eq_some_iff.1 hl
    rw [next_of_some hl]
    refine ⟨hlt, ?_⟩
    rw [List.take_add_one, hl, List.map_append]
    rfl
  | none =>
    rw [next_of_none hl]
    exact ⟨h, (List.append_nil _).symm⟩

/-- What a reader returns, after what it has returned before, are the first lines of the file. -/
theorem LineReader.strings_run (h : r.returned ≤ (lines newline content).length) :
    ((lines newline content).take r.returned).map lineText ++
        strings (runEvents next events content r).1 =
      ((lines newline (content ++ tailWrites events)).take
        (runEvents next events content r).2.2.returned).map lineText := by
  induction events generalizing content r with
  | nil => simp [runEvents, tailWrites, strings]
  | cons event events ih =>
    cases event with
    | append bytes =>
      have hle : r.returned ≤ (lines newline (content ++ bytes)).length := by
        rw [lines_append, List.length_append]
        omega
      have hrest := ih hle
      rw [lines_append, List.take_append_of_le_length h, List.append_assoc] at hrest
      exact hrest
    | next =>
      obtain ⟨hle, hnext⟩ := strings_next h
      have hrest := ih hle
      rw [hnext, List.append_assoc, ← strings_cons] at hrest
      exact hrest

/-- Tailing a file: whatever is written to it, and whenever it is read, the stream returns what it
    should if and only if every call is clean. The strings that are returned in that case are
    the first lines of the file, and the cursor stands after them. -/
theorem LineStream.tail_iff (path : String) (events : List TailEvent) :
    ((runEvents next events [] (fromPath path)).1 = (runEvents LineReader.next events [] ⟨0⟩).1 ↔
      Clean events [] ⟨0⟩) ∧
    (Clean events [] ⟨0⟩ → ∃ n ≤ (lines newline (tailWrites events)).length,
      strings (runEvents next events [] (fromPath path)).1 =
        ((lines newline (tailWrites events)).take n).map lineText ∧
      (runEvents next events [] (fromPath path)).2.2.position =
        (unlines newline ((lines newline (tailWrites events)).take n)).length) := by
  have hagree := agree_fromPath path
  refine ⟨hagree.outputs_eq_iff, fun hclean => ?_⟩
  have hfinal := hagree.run hclean
  rw [content_runEvents, List.nil_append] at hfinal
  refine ⟨_, hfinal.returned_le, ?_, hfinal.position_eq⟩
  rw [hagree.outputs_eq_iff.2 hclean]
  exact LineReader.strings_run (Nat.zero_le _)

/-- A file caught inside the character `é` of its only line, which is then completed: the stream
    returns two empty strings, the first one for a line that is still written. -/
theorem LineStream.tail_cut_character :
    (runEvents next [.append [0xC3], .next, .append [0xA9, newline], .next] [] (fromPath "")).1 =
        [some "", some ""] ∧
      (runEvents LineReader.next [.append [0xC3], .next, .append [0xA9, newline], .next] []
        ⟨0⟩).1 = [none, some "é"] := by
  decide

/-- A file whose line ends with a carriage return and a newline: only the newline is
    removed. -/
example : (runEvents LineStream.next [.append [65, carriageReturn, newline], .next] []
    (LineStream.fromPath "")).1 = [some "A\r"] := by
  decide

/-- A loop over a file that stands still reads the lines that have not been read, and leaves the
    cursor at the tail. -/
theorem Agree.readLines (h : Agree content s r) {fuel : ℕ}
    (hfuel : (lines newline content).length < r.returned + fuel)
    (hlines : ∀ l ∈ lines newline content,
      (fromUtf8 l).isSome → l.getLast? ≠ some carriageReturn)
    (htail : (fromUtf8 (tail newline content)).isSome) :
    (s.readLines content fuel).1 = ((lines newline content).drop r.returned).map lineText ∧
      Agree content (s.readLines content fuel).2 ⟨(lines newline content).length⟩ := by
  -- By induction on the fuel: a line that is complete is returned, an incomplete one ends the loop.
  induction fuel generalizing s r with
  | zero => exact absurd h.returned_le (Nat.not_le.2 hfuel)
  | succ fuel ih =>
    cases hl : (lines newline content)[r.returned]? with
    | some l =>
      obtain ⟨hlt, hget⟩ := List.getElem?_eq_some_iff.1 hl
      have hclean : CleanNext content r := by
        rw [CleanNext, hl]
        exact hlines l (hget ▸ List.getElem_mem hlt)
      have hnext := h.next_eq_iff.2 hclean
      have hagree := h.next hclean
      rw [LineReader.next_of_some hl] at hnext hagree
      have hfuel' : (lines newline content).length < r.returned + 1 + fuel := by omega
      obtain ⟨hrest, hfinal⟩ := ih hagree hfuel'
      have hread : s.readLines content (fuel + 1) =
          (lineText l :: ((s.next content).2.readLines content fuel).1,
            ((s.next content).2.readLines content fuel).2) := by
        rw [LineStream.readLines, ← Prod.mk.eta (p := s.next content), hnext]
      rw [hread, List.drop_eq_getElem_cons hlt, hget, List.map_cons, hrest]
      exact ⟨rfl, hfinal⟩
    | none =>
      have hlen := List.getElem?_eq_none_iff.1 hl
      have hread : s.readLines content (fuel + 1) = ([], s) := by
        rw [LineStream.readLines, h.next_tail hl, if_pos htail]
      rw [hread, List.drop_eq_nil_of_le hlen]
      exact ⟨rfl, Nat.le_antisymm h.returned_le hlen ▸ h⟩

/-- Scanning a stream is scanning the lines that the reader has not returned. -/
theorem Agree.scanStream (h : Agree content s r)
    (hlines : ∀ l ∈ lines newline content,
      (fromUtf8 l).isSome → l.getLast? ≠ some carriageReturn)
    (htail : (fromUtf8 (tail newline content)).isSome)
    (fromStr : String → Option LocalBlockAndReceipts) (options : ScanOptions) :
    (Scanner.scanStream fromStr content s options).1 =
        Scanner.scanHourFile fromStr s.path
          (((lines newline content).drop r.returned).map lineText) options ∧
      Agree content (Scanner.scanStream fromStr content s options).2
        ⟨(lines newline content).length⟩ := by
  have hlen := length_lines_le (d := newline) content
  have hfuel : (lines newline content).length < r.returned + (content.length + 1) := by omega
  obtain ⟨hread, hfinal⟩ := h.readLines hfuel hlines htail
  exact ⟨congrArg (Scanner.scanHourFile fromStr s.path · options) hread, hfinal⟩

end

end Nanoreth
