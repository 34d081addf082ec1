import Nanoreth.HlNodeSource.Ingest
import Nanoreth.HlNodeSource.LineStream
import Nanoreth.Lib.Partial

/-!
# The last block of a file of a local node

To find where a local node stands, the last block of its latest file is read, from the end of
the file, in chunks (`sources/hl_node/file_ops.rs`). Each pass of the loop puts one more chunk in
front of what is kept, and tries the last line of that, if its beginning has been read: it is
the line that is looked for, or it is dropped (`readBack_line`). In the end, what is kept is parsed
as one text.

So the loop tries some texts, one after the other (`tried`, `readBack_eq_firstBlock`): the last
lines of the file, of which it may leave out empty ones, and then all lines that are left, as one
text (`isTrail_tried`). How many are left depends on the chunks, since a pass drops one line at
most. The last block is found if and only if it is the first block among these texts, and the node
panics if and only if a text before that is not UTF-8 (`readLastCompleteLine_iff`).

A line that ends the file is found, whatever the chunks (`readLastCompleteLine_of_unlines`). But a
file that is read at once, with a line after it that is still written or an empty one, has its
lines before that tried as one text (`tried_of_le`). If the line that is still written is cut
inside a character, the node panics (`readLastCompleteLine_of_not_isSome`).

The parser is a parameter as in the scans.
-/

namespace Nanoreth

open Lines Partial

namespace FileOperations

/-- The size of what is read at once. -/
def chunkSize : ℕ := 50000

/-- Removes the newline that some bytes end with. -/
def popNewline (bytes : List UInt8) : List UInt8 :=
  if bytes.getLast? = some newline then bytes.dropLast else bytes

variable (fromStr : String → Option LocalBlockAndReceipts)

/-- The block of a line, which is taken to be text. -/
def parse (bytes : List UInt8) : Except Halt (Option (BlockAndReceipts × UInt64)) :=
  match fromUtf8 bytes with
  | none => .error (.panic "called `Result::unwrap()` on an `Err` value")
  | some line => .ok (Scanner.lineToEvmBlock fromStr line)

/-- Tries the last line of some bytes, if it has a beginning there. The bytes before it are
    left. -/
def tryLastLine (lastLine : List UInt8) :
    Except Halt (Option (BlockAndReceipts × UInt64) × List UInt8) :=
  match rposition newline lastLine with
  | some idx => do return (← parse fromStr (lastLine.drop (idx + 1)), lastLine.take idx)
  | none => return (none, lastLine)

/-- The loop, with the bytes up to `pos` still to be read, and `lastLine` kept. -/
def readBack (content : List UInt8) (pos : ℕ) (lastLine : List UInt8) :
    Except Halt (Option (BlockAndReceipts × UInt64)) :=
  if 0 < pos then do
    let readSize := min pos chunkSize
    let buf := (content.drop (pos - readSize)).take readSize
    -- A newline at the end is removed in every round, as what is left may end with one again.
    match ← tryLastLine fromStr (popNewline (buf ++ lastLine)) with
    | (some result, _) => return some result
    | (none, lastLine) =>
      if pos < readSize then parse fromStr lastLine
      else readBack content (pos - readSize) lastLine
  else parse fromStr lastLine
termination_by pos
decreasing_by simp only [chunkSize]; omega

/-- The last line of a file that is a block, which is looked for from the end. -/
def readLastCompleteLine (content : List UInt8) :
    Except Halt (Option (BlockAndReceipts × UInt64)) :=
  readBack fromStr content content.length []

variable {fromStr} {content kept before line : List UInt8} {pos : ℕ}

theorem popNewline_concat (bytes : List UInt8) (b : UInt8) :
    popNewline (bytes ++ [b]) = if b = newline then bytes else bytes ++ [b] := by
  simp only [popNewline, List.getLast?_concat, Option.some.injEq, List.dropLast_concat]

theorem popNewline_append (hline : newline ∉ line) (hne : line ≠ []) :
    popNewline (before ++ line) = before ++ line := by
  obtain ⟨init, b, rfl⟩ := (List.eq_nil_or_concat' line).resolve_left hne
  rw [← List.append_assoc, popNewline_concat, if_neg]
  exact fun hb => hline (List.mem_append_right _ (List.mem_singleton.2 hb.symm))

theorem popNewline_append_cons (hline : newline ∉ line) (hne : line ≠ []) :
    popNewline (before ++ newline :: line) = before ++ newline :: line := by
  rw [List.append_cons]
  exact popNewline_append hline hne

/-- The newline at the end is removed from any part of the content. -/
theorem popNewline_drop (h : pos < kept.length) :
    popNewline (kept.drop pos) = (popNewline kept).drop pos := by
  obtain ⟨init, b, rfl⟩ := List.eq_nil_or_concat' kept |>.resolve_left (by rintro rfl; simp at h)
  have hpos : pos ≤ init.length := by simpa [Nat.lt_succ_iff] using h
  rw [List.drop_append_of_le_length hpos, popNewline_concat, popNewline_concat]
  split
  · rfl
  · rw [List.drop_append_of_le_length hpos]

theorem le_length_popNewline (h : pos < kept.length) : pos ≤ (popNewline kept).length := by
  rw [popNewline]
  split
  · rw [List.length_dropLast]
    omega
  · exact h.le

/-- The next chunk in front of what is kept. -/
theorem chunk_append_drop (hkept : kept <+: content) (hpos : pos ≤ kept.length) (n : ℕ) :
    (content.drop (pos - n)).take (min pos n) ++ kept.drop pos = kept.drop (pos - n) := by
  obtain ⟨dropped, rfl⟩ := hkept
  have hlen : min pos n ≤ (kept.drop (pos - n)).length := by
    rw [List.length_drop]
    omega
  have hdrop : kept.drop pos = (kept.drop (pos - n)).drop (min pos n) := by
    rw [List.drop_drop]
    congr 1
    omega
  rw [List.drop_append_of_le_length (by omega), List.take_append_of_le_length hlen, hdrop,
    List.take_append_drop]

/-! ## One pass -/

theorem tryLastLine_of_notMem (h : newline ∉ line) :
    tryLastLine fromStr line = .ok (none, line) := by
  rw [tryLastLine, rposition_of_notMem h]
  rfl

/-- What comes after the last newline is tried. -/
theorem tryLastLine_append_cons (h : newline ∉ line) :
    tryLastLine fromStr (before ++ newline :: line) =
      (parse fromStr line).map fun result => (result, before) := by
  rw [tryLastLine, rposition_append_cons h]
  simp only [List.take_left, List.drop_length_add_append, List.drop_succ_cons, List.drop_zero]
  cases parse fromStr line <;> rfl

/-- A pass of the loop reads a chunk, removes a newline from the end of what is kept, and tries the
    last line of what has been read. -/
theorem readBack_kept (hkept : kept <+: content) (hpos : 0 < pos) (hle : pos ≤ kept.length) :
    readBack fromStr content pos (kept.drop pos) =
      (tryLastLine fromStr ((popNewline kept).drop (pos - chunkSize))).bind fun tried =>
        tried.1.elim (readBack fromStr content (pos - chunkSize) tried.2) (.ok ∘ some) := by
  have hchunk : pos - chunkSize < kept.length := by
    simp only [chunkSize]
    omega
  have hsize : ¬ pos < min pos chunkSize := by omega
  have hsub : pos - min pos chunkSize = pos - chunkSize := by omega
  rw [readBack, if_pos hpos]
  simp only [hsub, if_neg hsize, chunk_append_drop hkept hle, popNewline_drop hchunk]
  cases tryLastLine fromStr ((popNewline kept).drop (pos - chunkSize)) with
  | error halt => rfl
  | ok tried =>
    obtain ⟨result, lastLine⟩ := tried
    cases result <;> rfl

theorem readBack_zero : readBack fromStr content 0 line = parse fromStr line := by
  rw [readBack, if_neg (Nat.lt_irrefl 0)]

/-- A pass that has not read the beginning of the last line. -/
theorem readBack_of_notMem (hkept : kept <+: content) (hpos : 0 < pos) (hle : pos ≤ kept.length)
    (h : newline ∉ (popNewline kept).drop (pos - chunkSize)) :
    readBack fromStr content pos (kept.drop pos) =
      readBack fromStr content (pos - chunkSize) ((popNewline kept).drop (pos - chunkSize)) := by
  rw [readBack_kept hkept hpos hle, tryLastLine_of_notMem h, ok_bind, Option.elim_none]

/-- A pass that has read the beginning of the last line. -/
theorem readBack_of_line (hkept : kept <+: content) (hpos : 0 < pos) (hle : pos ≤ kept.length)
    (hlast : popNewline kept = before ++ newline :: line) (hline : newline ∉ line)
    (h : pos - chunkSize ≤ before.length) :
    readBack fromStr content pos (kept.drop pos) =
      (parse fromStr line).bind fun result =>
        result.elim (readBack fromStr content (pos - chunkSize) (before.drop (pos - chunkSize)))
          (.ok ∘ some) := by
  rw [readBack_kept hkept hpos hle, hlast, List.drop_append_of_le_length h,
    tryLastLine_append_cons hline, map_bind]

theorem popNewline_isPrefix (bytes : List UInt8) : popNewline bytes <+: bytes := by
  rw [popNewline]
  split
  · exact List.dropLast_prefix bytes
  · exact List.prefix_rfl

/-! ## The last line -/

/-- The bytes that have not been read when the byte `n` has, in chunks from the position
    `pos`. -/
def unread (pos n : ℕ) : ℕ := pos - chunkSize * ((pos - n - 1) / chunkSize + 1)

theorem chunkSize_pos : 0 < chunkSize := by decide

theorem unread_of_le {n : ℕ} (h : pos - chunkSize ≤ n) : unread pos n = pos - chunkSize := by
  have hpos := chunkSize_pos
  have hdiv : (pos - n - 1) / chunkSize = 0 := Nat.div_eq_of_lt (by omega)
  rw [unread, hdiv, Nat.zero_add, Nat.mul_one]

theorem unread_of_lt {n : ℕ} (h : n < pos - chunkSize) :
    unread pos n = unread (pos - chunkSize) n := by
  have hsub : pos - n - 1 = (pos - chunkSize - n - 1) + chunkSize := by omega
  rw [unread, unread, hsub, Nat.add_div_right _ chunkSize_pos, Nat.mul_succ, Nat.add_comm,
    Nat.sub_add_eq]

theorem unread_le (pos n : ℕ) : unread pos n ≤ n := by
  have hlt := Nat.lt_mul_div_succ (pos - n - 1) chunkSize_pos
  rw [unread]
  omega

/-- The last line is tried, once it has been read, and dropped if it is no block. -/
theorem readBack_line (hkept : kept <+: content) (hpos : 0 < pos) (hle : pos ≤ kept.length)
    (hlast : popNewline kept = before ++ newline :: line) (hline : newline ∉ line)
    (h : line ≠ [] ∨ pos - chunkSize ≤ before.length) :
    readBack fromStr content pos (kept.drop pos) =
      (parse fromStr line).bind fun result =>
        result.elim (readBack fromStr content (unread pos before.length)
          (before.drop (unread pos before.length))) (.ok ∘ some) := by
  induction pos using Nat.strongRecOn generalizing kept with
  | ind pos ih =>
    by_cases hread : pos - chunkSize ≤ before.length
    · rw [unread_of_le hread]
      exact readBack_of_line hkept hpos hle hlast hline hread
    · rw [Nat.not_le] at hread
      have hchunk := chunkSize_pos
      have hne : line ≠ [] := h.resolve_right (Nat.not_le.2 hread)
      -- The next passes keep the line, which does not end with a newline.
      have hpop : popNewline (popNewline kept) = before ++ newline :: line := by
        rw [hlast, popNewline_append_cons hline hne]
      have hdrop : newline ∉ (popNewline kept).drop (pos - chunkSize) := by
        rw [hlast]
        exact notMem_drop_append_cons hline hread
      rw [readBack_of_notMem hkept hpos hle hdrop, unread_of_lt hread]
      exact ih (pos - chunkSize) (by omega) ((popNewline_isPrefix kept).trans hkept) (by omega)
        (le_length_popNewline (by omega)) hpop (.inl hne)

/-- A file of one line. -/
theorem readBack_single (hkept : kept <+: content) (hpos : 0 < pos) (hle : pos ≤ kept.length)
    (hline : newline ∉ popNewline kept) :
    readBack fromStr content pos (kept.drop pos) = parse fromStr (popNewline kept) := by
  induction pos using Nat.strongRecOn generalizing kept with
  | ind pos ih =>
    have hchunk := chunkSize_pos
    have hdrop : newline ∉ (popNewline kept).drop (pos - chunkSize) :=
      fun hmem => hline (List.mem_of_mem_drop hmem)
    have hpop : popNewline (popNewline kept) = popNewline kept := by
      rw [popNewline, if_neg]
      exact fun hlast => hline (List.mem_of_getLast? hlast)
    rw [readBack_of_notMem hkept hpos hle hdrop]
    by_cases hmore : 0 < pos - chunkSize
    · have hrest := ih (pos - chunkSize) (Nat.sub_lt hpos hchunk)
        ((popNewline_isPrefix kept).trans hkept) hmore (le_length_popNewline (by omega))
        (hpop.symm ▸ hline)
      rw [hrest, hpop]
    · rw [Nat.eq_zero_of_not_pos hmore, readBack_zero, List.drop_zero]

/-! ## The texts that are tried -/

/-- Some lines as one text, given the last one first. -/
def joined : List (List UInt8) → List UInt8
  | [] => []
  | [line] => line
  | line :: next :: before => joined (next :: before) ++ newline :: line

/-- Leaves out an empty line at the end, the lines being given the last one first. -/
def skipEmpty : List (List UInt8) → List (List UInt8)
  | [] :: line :: before => line :: before
  | lines => lines

/-- Only lines at the end are skipped. -/
theorem skipEmpty_suffix (lines : List (List UInt8)) : skipEmpty lines <:+ lines := by
  unfold skipEmpty
  split
  · exact List.suffix_cons _ _
  · exact List.suffix_rfl

/-- The texts that the loop tries, one after the other, until one is a block. The lines that are
    kept are given the last one first, and the bytes up to `pos` are still to be read. The last
    line is tried and dropped. When all has been read, or one line is left, what is left is tried
    as one text. -/
def tried (lines : List (List UInt8)) (pos : ℕ) : List (List UInt8) :=
  if pos = 0 then [joined lines] else
    match _hskip : skipEmpty lines with
    | line :: next :: before =>
      line :: tried (next :: before) (unread pos (joined (next :: before)).length)
    | left => [joined left]
termination_by lines.length
decreasing_by
  have hlen := (skipEmpty_suffix lines).length_le
  rw [_hskip, List.length_cons] at hlen
  exact hlen

/-- The block of the first of some texts that is one. -/
def firstBlock (fromStr : String → Option LocalBlockAndReceipts) :
    List (List UInt8) → Except Halt (Option (BlockAndReceipts × UInt64))
  | [] => .ok none
  | text :: texts =>
    (parse fromStr text).bind fun result => result.elim (firstBlock fromStr texts) (.ok ∘ some)

variable {lines ls texts : List (List UInt8)} {tail text : List UInt8}

/-- Lines that were read backwards are the end of the content. -/
theorem joined_reverse (ls : List (List UInt8)) (tail : List UInt8) :
    joined (tail :: ls.reverse) = unlines newline ls ++ tail := by
  induction ls using List.reverseRecOn generalizing tail with
  | nil => rfl
  | append_singleton ls line ih =>
    rw [List.reverse_concat, joined, ih, unlines_concat]
    simp

/-- An empty line at the end is what a newline at the end is. -/
theorem popNewline_joined (hlines : ∀ line ∈ lines, newline ∉ line) :
    popNewline (joined lines) = joined (skipEmpty lines) := by
  match lines with
  | [] => rfl
  | [line] =>
    cases line with
    | nil => rfl
    | cons b line =>
      rw [skipEmpty, joined, ← List.nil_append (b :: line)]
      · exact popNewline_append (hlines (b :: line) List.mem_cons_self) (List.cons_ne_nil b line)
      · simp
  | [] :: next :: before => rw [joined, skipEmpty, popNewline_concat, if_pos rfl]
  | (b :: line) :: next :: before =>
    rw [joined, popNewline_append_cons (hlines _ List.mem_cons_self) (List.cons_ne_nil b line)]
    rfl

/-- At most one byte is removed. -/
theorem length_le_popNewline (bytes : List UInt8) :
    bytes.length ≤ (popNewline bytes).length + 1 := by
  rw [popNewline]
  split
  · rw [List.length_dropLast]
    omega
  · exact Nat.le_succ _

/-- A line is tried before those that are before it in the file. -/
theorem tried_cons {next : List UInt8} {before : List (List UInt8)} (hpos : pos ≠ 0)
    (hskip : skipEmpty lines = line :: next :: before) :
    tried lines pos =
      line :: tried (next :: before) (unread pos (joined (next :: before)).length) := by
  rw [tried, if_neg hpos]
  split
  · rename_i hskip'
    cases hskip.symm.trans hskip'
    rfl
  · rename_i hleft
    exact absurd hskip (hleft line next before)

/-- A line without any before it is tried alone. -/
theorem tried_singleton (hpos : pos ≠ 0) (hskip : skipEmpty lines = [line]) :
    tried lines pos = [line] := by
  rw [tried, if_neg hpos]
  split
  · rename_i hskip'
    cases hskip.symm.trans hskip'
  · rw [hskip, joined]

theorem firstBlock_singleton : firstBlock fromStr [text] = parse fromStr text := by
  rw [firstBlock]
  cases parse fromStr text with
  | error halt => rfl
  | ok result => cases result <;> rfl

/-- The loop looks for the first block among the texts that it tries. -/
theorem readBack_eq_firstBlock (hkept : joined lines <+: content)
    (hlines : ∀ line ∈ lines, newline ∉ line) (hle : pos ≤ (joined lines).length) :
    readBack fromStr content pos ((joined lines).drop pos) =
      firstBlock fromStr (tried lines pos) := by
  fun_induction tried lines pos with
  | case1 lines => rw [List.drop_zero, readBack_zero, firstBlock_singleton]
  | case2 lines pos hpos line next before hskip ih =>
    have hpos := Nat.pos_of_ne_zero hpos
    have hmem : ∀ l ∈ line :: next :: before, newline ∉ l := fun l hl =>
      hlines l ((hskip ▸ skipEmpty_suffix lines).mem hl)
    have hpop : popNewline (joined lines) = joined (next :: before) ++ newline :: line := by
      rw [popNewline_joined hlines, hskip, joined]
    have hbefore : joined (next :: before) <+: content :=
      (List.prefix_append _ _).trans (hpop ▸ (popNewline_isPrefix _).trans hkept)
    -- A line that is empty has at most one newline after it, so that its beginning is read.
    have hread : line ≠ [] ∨ pos - chunkSize ≤ (joined (next :: before)).length := by
      refine or_iff_not_imp_left.2 fun hempty => ?_
      have hlen := length_le_popNewline (joined lines)
      rw [hpop, not_not.1 hempty, List.length_append, List.length_singleton] at hlen
      simp only [chunkSize]
      omega
    rw [readBack_line hkept hpos hle hpop (hmem line List.mem_cons_self) hread, firstBlock,
      ih hbefore (fun l hl => hmem l (List.mem_cons_of_mem _ hl)) (unread_le _ _)]
  | case3 lines pos hpos hleft =>
    have hpop := popNewline_joined hlines
    have hline : newline ∉ joined (skipEmpty lines) := by
      have hmem : ∀ l ∈ skipEmpty lines, newline ∉ l := fun l hl =>
        hlines l ((skipEmpty_suffix lines).mem hl)
      match hskip : skipEmpty lines with
      | [] => exact List.not_mem_nil
      | [line] =>
        rw [hskip] at hmem
        exact hmem line List.mem_cons_self
      | line :: next :: before => exact absurd hskip (hleft line next before)
    rw [readBack_single hkept (Nat.pos_of_ne_zero hpos) hle (hpop ▸ hline), hpop,
      firstBlock_singleton]

/-- The loop finds the first block among the texts it tries. -/
theorem readLastCompleteLine_eq_firstBlock (hls : ∀ line ∈ ls, newline ∉ line)
    (htail : newline ∉ tail) :
    readLastCompleteLine fromStr (unlines newline ls ++ tail) =
      firstBlock fromStr (tried (tail :: ls.reverse) (unlines newline ls ++ tail).length) := by
  have hlines : ∀ line ∈ tail :: ls.reverse, newline ∉ line := by
    simpa [List.forall_mem_cons] using ⟨htail, hls⟩
  rw [readLastCompleteLine, ← joined_reverse,
    ← readBack_eq_firstBlock List.prefix_rfl hlines le_rfl, List.drop_length]

/-- The loop over a file, given by its lines. -/
theorem readLastCompleteLine_splitOn (content : List UInt8) :
    readLastCompleteLine fromStr content =
      firstBlock fromStr (tried (content.splitOn newline).reverse content.length) := by
  rw [splitOn_eq_lines_append, List.reverse_concat]
  nth_rewrite 1 [← unlines_lines_append_tail (d := newline) content]
  rw [readLastCompleteLine_eq_firstBlock (notMem_of_mem_lines content) (notMem_tail content),
    unlines_lines_append_tail]

theorem parse_nil (hempty : fromStr "" = none) : parse fromStr [] = .ok none := by
  have hnil : fromUtf8 [] = some "" := by decide
  rw [parse, hnil]
  simp [Scanner.lineToEvmBlock, hempty]

/-! ## The first block of some texts -/

/-- There is no block if no text has one. -/
theorem firstBlock_eq_none_iff :
    firstBlock fromStr texts = .ok none ↔ ∀ text ∈ texts, parse fromStr text = .ok none := by
  induction texts with
  | nil => simp [firstBlock]
  | cons text texts ih =>
    rw [firstBlock, List.forall_mem_cons, ← ih]
    cases parse fromStr text with
    | error halt => simp [error_bind]
    | ok result => cases result <;> simp [ok_bind]

/-- A block is that of the first text that is none without a block, and so is a panic. -/
theorem firstBlock_eq_iff {result : Except Halt (Option (BlockAndReceipts × UInt64))}
    (hresult : result ≠ .ok none) :
    firstBlock fromStr texts = result ↔ ∃ before text after, texts = before ++ text :: after ∧
      (∀ other ∈ before, parse fromStr other = .ok none) ∧ parse fromStr text = result := by
  constructor
  · intro hfirst
    -- Texts without a block are passed over, so the induction is on the texts before the first
    -- result.
    induction texts with
    | nil => exact absurd hfirst.symm hresult
    | cons text texts ih =>
      by_cases hnone : parse fromStr text = .ok none
      · rw [firstBlock, hnone, ok_bind, Option.elim_none] at hfirst
        obtain ⟨before, text', after, rfl, hbefore, htext'⟩ := ih hfirst
        exact ⟨text :: before, text', after, rfl, List.forall_mem_cons.2 ⟨hnone, hbefore⟩, htext'⟩
      · refine ⟨[], text, texts, rfl, by simp, ?_⟩
        rw [← hfirst, firstBlock]
        cases hparse : parse fromStr text with
        | error halt => rfl
        | ok found =>
          cases found with
          | none => exact absurd hparse hnone
          | some r => rfl
  · rintro ⟨before, text, after, rfl, hbefore, htext⟩
    induction before with
    | nil =>
      rw [List.nil_append, firstBlock, htext]
      cases result with
      | error halt => rfl
      | ok found =>
        cases found with
        | none => exact absurd rfl hresult
        | some r => rfl
    | cons other before ih =>
      rw [List.forall_mem_cons] at hbefore
      rw [List.cons_append, firstBlock, hbefore.1, ok_bind, Option.elim_none]
      exact ih hbefore.2

/-- No text that is tried makes the node panic. -/
def AllText (fromStr : String → Option LocalBlockAndReceipts) (texts : List (List UInt8)) : Prop :=
  ∀ before text after, texts = before ++ text :: after →
    (∀ other ∈ before, parse fromStr other = .ok none) → (fromUtf8 text).isSome

/-- The parser panics if the bytes are not text. -/
theorem parse_eq_error_iff {halt : Halt} :
    parse fromStr text = .error halt ↔
      halt = .panic "called `Result::unwrap()` on an `Err` value" ∧ fromUtf8 text = none := by
  rw [parse]
  cases fromUtf8 text with
  | none => simp [eq_comm]
  | some line => simp

/-- There is no panic if all that is tried is text. -/
theorem firstBlock_isOk_iff :
    (∃ result, firstBlock fromStr texts = .ok result) ↔ AllText fromStr texts := by
  constructor
  · rintro ⟨result, hfirst⟩ before text after hsplit hbefore
    by_contra hnone
    have hparse : parse fromStr text = .error _ :=
      parse_eq_error_iff.2 ⟨rfl, Option.not_isSome_iff_eq_none.1 hnone⟩
    rw [(firstBlock_eq_iff (by simp)).2 ⟨before, text, after, hsplit, hbefore, hparse⟩] at hfirst
    cases hfirst
  · intro hall
    cases hfirst : firstBlock fromStr texts with
    | ok result => exact ⟨result, rfl⟩
    | error halt =>
      obtain ⟨before, text, after, hsplit, hbefore, hparse⟩ :=
        (firstBlock_eq_iff (by simp)).1 hfirst
      have hsome := hall before text after hsplit hbefore
      rw [(parse_eq_error_iff.1 hparse).2] at hsome
      cases hsome

/-! ## The last block -/

/-- The texts are the last lines, one by one, of which only empty ones are left out, and then the
    lines before those as one text. The lines are given the last one first. -/
def IsTrail (lines texts : List (List UInt8)) : Prop :=
  ∃ dropped alone left, lines = dropped ++ left ∧ texts = alone ++ [joined left] ∧
    alone.Sublist dropped ∧ alone.filter (· ≠ []) = dropped.filter (· ≠ [])

/-- The block of the last line that is one. -/
def lastBlock (fromStr : String → Option LocalBlockAndReceipts) (ls : List (List UInt8)) :
    Option (BlockAndReceipts × UInt64) :=
  ls.reverse.findSome? fun line => (parse fromStr line).toOption.join

/-- The first of some texts that is a block gives this one. The texts before it are text. -/
def IsFirst (fromStr : String → Option LocalBlockAndReceipts) (texts : List (List UInt8)) :
    Option (BlockAndReceipts × UInt64) → Prop
  | none => ∀ text ∈ texts, parse fromStr text = .ok none
  | some r => ∃ before text after, texts = before ++ text :: after ∧
      (∀ other ∈ before, parse fromStr other = .ok none) ∧ parse fromStr text = .ok (some r)

/-- The result is that of the first text with a block. -/
theorem firstBlock_eq_ok_iff {result : Option (BlockAndReceipts × UInt64)} :
    firstBlock fromStr texts = .ok result ↔ IsFirst fromStr texts result := by
  cases result with
  | none => exact firstBlock_eq_none_iff
  | some r => exact firstBlock_eq_iff (by simp)

/-- An empty line at the end may be skipped. -/
theorem IsTrail.of_skipEmpty (h : IsTrail (skipEmpty lines) texts) : IsTrail lines texts := by
  unfold skipEmpty at h
  split at h
  · obtain ⟨dropped, alone, left, hlines, htexts, hsub, hfilter⟩ := h
    refine ⟨[] :: dropped, alone, left, by rw [hlines, List.cons_append], htexts, hsub.cons [], ?_⟩
    rw [hfilter, List.filter_cons_of_neg (by simp)]
  · exact h

/-- The texts that are tried are lines, from the last one on, and what is left. -/
theorem isTrail_tried (lines : List (List UInt8)) (pos : ℕ) : IsTrail lines (tried lines pos) := by
  fun_induction tried lines pos with
  | case1 lines => exact ⟨[], [], lines, rfl, rfl, List.Sublist.refl [], rfl⟩
  | case2 lines pos hpos line next before hskip ih =>
    obtain ⟨dropped, alone, left, hlines, htexts, hsub, hfilter⟩ := ih
    refine IsTrail.of_skipEmpty
      ⟨line :: dropped, line :: alone, left, ?_, ?_, hsub.cons_cons line, ?_⟩
    · rw [hskip, hlines, List.cons_append]
    · rw [htexts, List.cons_append]
    · rw [List.filter_cons, List.filter_cons, hfilter]
  | case3 lines pos hpos hleft =>
    exact IsTrail.of_skipEmpty ⟨[], [], skipEmpty lines, rfl, rfl, List.Sublist.refl [], rfl⟩

/-- A block on the last line is found. -/
theorem readLastCompleteLine_of_unlines {r : BlockAndReceipts × UInt64} (hline : newline ∉ line)
    (hparse : parse fromStr line = .ok (some r)) (ls : List (List UInt8)) :
    readLastCompleteLine fromStr (unlines newline (ls ++ [line])) = .ok (some r) := by
  have hpos : (unlines newline (ls ++ [line])).length ≠ 0 := by
    rw [unlines_concat, List.length_append, List.length_singleton]
    exact Nat.succ_ne_zero _
  obtain ⟨before, hbefore⟩ := exists_splitOn_unlines_concat hline ls
  rw [readLastCompleteLine_splitOn, hbefore, List.reverse_append]
  cases before.reverse with
  | nil => rw [List.append_nil, tried_singleton hpos rfl, firstBlock_singleton, hparse]
  | cons next before =>
    rw [tried_cons hpos rfl, firstBlock, hparse, ok_bind, Option.elim_some]
    rfl

/-- A tail that is no text makes the node panic. -/
theorem readLastCompleteLine_of_not_isSome (hls : ∀ line ∈ ls, newline ∉ line)
    (htail : newline ∉ tail) (h : ¬ (fromUtf8 tail).isSome) :
    readLastCompleteLine fromStr (unlines newline ls ++ tail) =
      .error (.panic "called `Result::unwrap()` on an `Err` value") := by
  have hparse : parse fromStr tail =
      .error (.panic "called `Result::unwrap()` on an `Err` value") :=
    parse_eq_error_iff.2 ⟨rfl, Option.not_isSome_iff_eq_none.1 h⟩
  rw [readLastCompleteLine_eq_firstBlock hls htail]
  cases tail with
  | nil => exact absurd (by decide) h
  | cons b tail =>
    have hpos : (unlines newline ls ++ b :: tail).length ≠ 0 := by
      rw [List.length_append, List.length_cons]
      exact Nat.succ_ne_zero _
    cases ls.reverse with
    | nil => rw [tried_singleton hpos rfl, firstBlock_singleton, hparse]
    | cons next before => rw [tried_cons hpos rfl, firstBlock, hparse, error_bind]

theorem toList_pushn (s : String) (c : Char) (n : ℕ) :
    (s.pushn c n).toList = s.toList ++ List.replicate n c := by
  induction n with
  | zero => exact (List.append_nil _).symm
  | succ n ih =>
    change ((s.pushn c n).push c).toList = _
    rw [String.toList_push, ih, List.replicate_succ', List.append_assoc]

theorem newline_notMem_zeros (n : ℕ) : '\n' ∉ (zeros n).toList := by
  simp [zeros, toList_pushn]

theorem newline_notMem_zeroLine {number : String} (h : '\n' ∉ number.toList) :
    '\n' ∉ (zeroLine number).toList := by
  unfold zeroLine zeroLineStart zeroLineEnd
  simp only [String.toList_append, List.mem_append, newline_notMem_zeros, h, not_or]
  simp

theorem length_zeros (n : ℕ) : (zeros n).length = 2 * n + 4 := by
  have hstart : "\"0x".length = 3 := by decide
  have hend : "\"".length = 1 := by decide
  simp only [zeros, String.length_append, String.length_pushn, hstart, hend, String.length_empty]
  omega

theorem length_zeroLine_le (number : String) : (zeroLine number).length ≤ number.length + 2000 := by
  have hstart : zeroLineStart.length ≤ 1500 := by
    unfold zeroLineStart
    simp only [String.length_append, length_zeros]
    decide +kernel
  have hend : zeroLineEnd.length ≤ 500 := by
    unfold zeroLineEnd
    simp only [String.length_append, length_zeros]
    decide +kernel
  rw [zeroLine, String.length_append, String.length_append]
  omega

/-- The bytes of a line. -/
def lineBytes (line : String) : List UInt8 := encode line.toList

/-- The bytes of a line are read as the scanner reads the line. -/
theorem parse_lineBytes (line : String) :
    parse fromStr (lineBytes line) = .ok (Scanner.lineToEvmBlock fromStr line) := by
  rw [parse, lineBytes, fromUtf8_encode]

theorem newline_notMem_lineBytes {number : String} (h : '\n' ∉ number.toList) :
    newline ∉ lineBytes (zeroLine number) :=
  fun hmem => newline_notMem_zeroLine h (mem_of_mem_encode utf8EncodeChar_newline hmem)

/-- The parser takes no text with a newline for a block. -/
theorem parseZeroLine_eq_none {line : String} (h : '\n' ∈ line.toList) :
    parseZeroLine line = none := by
  have hne : ∀ number, '\n' ∉ number.toList → line ≠ zeroLine number := by
    rintro number hnumber rfl
    exact newline_notMem_zeroLine hnumber h
  rw [parseZeroLine, if_neg (hne _ (by decide)), if_neg (hne _ (by decide)),
    if_neg (hne _ (by decide))]

theorem parseZeroLine_short {line : String} (h : line.length ≤ 1) : parseZeroLine line = none := by
  have hne : ∀ number, line ≠ zeroLine number := by
    rintro number rfl
    unfold zeroLine zeroLineStart at h
    simp only [String.length_append, length_zeros] at h
    omega
  rw [parseZeroLine, if_neg (hne _), if_neg (hne _), if_neg (hne _)]

/-- The bytes of two lines, one after the other. -/
theorem parse_twoLines (line line' : String) :
    parse parseZeroLine (lineBytes line ++ newline :: lineBytes line') = .ok none := by
  have hbytes : lineBytes line ++ newline :: lineBytes line' =
      lineBytes (line ++ "\n" ++ line') := by
    simp [lineBytes, utf8EncodeChar_newline]
  rw [hbytes, parse_lineBytes, Scanner.lineToEvmBlock, parseZeroLine_eq_none (by simp)]
  rfl

theorem parse_bracket : parse parseZeroLine (lineBytes "[") = .ok none := by
  rw [parse_lineBytes, Scanner.lineToEvmBlock, parseZeroLine_short (by decide)]
  rfl

theorem parse_ten :
    parse parseZeroLine (lineBytes (zeroLine "0xa")) = .ok (some (zeroBlock 10, 10)) := by
  rw [parse_lineBytes, Scanner.lineToEvmBlock, parseZeroLine_ten]
  rfl

theorem length_lineBytes_le {number : String} (h : number.length ≤ 3) :
    (lineBytes (zeroLine number)).length ≤ 10000 := by
  have hbytes := length_encode_le (zeroLine number).toList
  have hline := length_zeroLine_le number
  rw [String.length_toList] at hbytes
  rw [lineBytes]
  omega

/-- A file that is read at once has its last line tried, and the lines before it as one text. -/
theorem tried_of_le {next : List UInt8} {before : List (List UInt8)} (hpos : pos ≠ 0)
    (hle : pos ≤ chunkSize) (hskip : skipEmpty lines = line :: next :: before) :
    tried lines pos = [line, joined (next :: before)] := by
  rw [tried_cons hpos hskip, unread_of_le (by omega), Nat.sub_eq_zero_of_le hle, tried, if_pos rfl]

theorem length_unlines_pair_le {bytes bytes' : List UInt8} (h : bytes.length ≤ 10000)
    (h' : bytes'.length ≤ 10000) (htail : tail.length ≤ 10000) :
    (unlines newline [bytes, bytes'] ++ tail).length ≠ 0 ∧
      (unlines newline [bytes, bytes'] ++ tail).length ≤ chunkSize := by
  simp only [unlines_cons, unlines_nil, List.length_append, List.length_cons, List.length_nil,
    chunkSize]
  omega

/-- The lines of the blocks 5 and 10. -/
def fiveTen : List (List UInt8) := [lineBytes (zeroLine "0x5"), lineBytes (zeroLine "0xa")]

theorem newline_notMem_fiveTen : ∀ line ∈ fiveTen, newline ∉ line := by
  simp [fiveTen, newline_notMem_lineBytes]

theorem length_fiveTen_le (tail : List UInt8) (htail : tail.length ≤ 10000) :
    (unlines newline fiveTen ++ tail).length ≠ 0 ∧
      (unlines newline fiveTen ++ tail).length ≤ chunkSize :=
  length_unlines_pair_le (length_lineBytes_le (by decide)) (length_lineBytes_le (by decide)) htail

theorem lastBlock_fiveTen : lastBlock parseZeroLine fiveTen = some (zeroBlock 10, 10) := by
  simp [lastBlock, fiveTen, parse_ten, Except.toOption]

theorem parse_joined_fiveTen : parse parseZeroLine (joined fiveTen.reverse) = .ok none :=
  parse_twoLines (zeroLine "0x5") (zeroLine "0xa")

/-- With something after its last newline, the file has its two lines tried as one text. -/
theorem tried_fiveTen (hne : tail ≠ []) (htail : tail.length ≤ 10000) :
    tried (tail :: fiveTen.reverse) (unlines newline fiveTen ++ tail).length =
      [tail, joined fiveTen.reverse] := by
  obtain ⟨hpos, hle⟩ := length_fiveTen_le tail htail
  cases tail with
  | nil => exact absurd rfl hne
  | cons b tail => exact tried_of_le hpos hle rfl

end FileOperations

end Nanoreth
