import Mathlib.Data.List.TakeWhile

/-!
# Lines of text

A file is a list of bytes. Its *lines* are the bytes up to each newline, without it, and
its *tail* those after the last one, a line that may still be written (`lines`, `tail`). What is
written later goes on from the tail (`lines_append`).

The bytes are text in UTF-8 (`fromUtf8`). A byte of ASCII stands for itself there: it is
part of no other character. So bytes are text when those before and those after a byte of
ASCII are (`isSome_fromUtf8_append_cons`), and a byte of ASCII at their end is the last
character of the text (`fromUtf8_concat`).
-/

namespace Lines

section Split

variable {α : Type} {d : α} {xs ys : List α}

/-- The file of some lines. -/
def unlines (d : α) (ls : List (List α)) : List α := ls.flatMap (· ++ [d])

@[simp]
theorem unlines_nil : unlines d [] = [] := rfl

@[simp]
theorem unlines_cons (l : List α) (ls : List (List α)) :
    unlines d (l :: ls) = l ++ d :: unlines d ls := by
  simp [unlines]

@[simp]
theorem unlines_append (ls ls' : List (List α)) :
    unlines d (ls ++ ls') = unlines d ls ++ unlines d ls' :=
  List.flatMap_append

theorem unlines_concat (ls : List (List α)) (l : List α) :
    unlines d (ls ++ [l]) = unlines d ls ++ l ++ [d] := by
  rw [unlines_append, unlines_cons, unlines_nil, List.append_assoc]

/-- A list can be split at the last delimiter. -/
theorem eq_append_cons_last_of_mem (h : d ∈ xs) : ∃ ys l, xs = ys ++ d :: l ∧ d ∉ l := by
  obtain ⟨l, ys, heq, hl⟩ := List.eq_append_cons_of_mem (List.mem_reverse.2 h)
  refine ⟨ys.reverse, l.reverse, ?_, fun hmem => hl (List.mem_reverse.1 hmem)⟩
  rw [← List.reverse_reverse xs, heq]
  simp

/-- No delimiter comes after the last one. -/
theorem notMem_drop_append_cons {l : List α} (h : d ∉ l) {n : ℕ} (hn : ys.length < n) :
    d ∉ (ys ++ d :: l).drop n := by
  obtain ⟨k, rfl⟩ := Nat.exists_eq_add_of_lt hn
  rw [Nat.add_assoc, List.drop_length_add_append, List.drop_succ_cons]
  exact fun hmem => h (List.mem_of_mem_drop hmem)

/-- What stands before and after the first delimiter. -/
def splitOnce [DecidableEq α] (d : α) (xs : List α) : Option (List α × List α) :=
  match xs.span (· ≠ d) with
  | (before, _ :: after) => some (before, after)
  | (_, []) => none

variable [BEq α]

/-- The lines of a file: what stands before each delimiter `d`. -/
def lines (d : α) (xs : List α) : List (List α) := (xs.splitOn d).dropLast

/-- What stands after the last delimiter. -/
def tail (d : α) (xs : List α) : List α := (xs.splitOn d).getLast (List.splitOn_ne_nil d xs)

/-- What is read up to the first delimiter, with it, or to the end of the file. -/
def readUntil (d : α) (xs : List α) : List α :=
  xs.takeWhile (· != d) ++ (xs.dropWhile (· != d)).take 1

/-- The index of the last delimiter. -/
def rposition (d : α) (xs : List α) : Option ℕ :=
  (xs.reverse.findIdx? (· == d)).map (xs.length - 1 - ·)

theorem splitOn_eq_lines_append (xs : List α) : xs.splitOn d = lines d xs ++ [tail d xs] :=
  (List.dropLast_concat_getLast (List.splitOn_ne_nil d xs)).symm

variable [LawfulBEq α]

theorem forall_beq_eq_false (h : d ∉ xs) : ∀ x ∈ xs, (x == d) = false :=
  fun _ hx => beq_eq_false_iff_ne.2 fun heq => h (heq ▸ hx)

theorem splitOn_of_notMem (h : d ∉ xs) : xs.splitOn d = [xs] :=
  List.splitOnP_eq_singleton (forall_beq_eq_false h)

theorem splitOn_append_cons {l : List α} (h : d ∉ l) (xs : List α) :
    (l ++ d :: xs).splitOn d = l :: xs.splitOn d :=
  List.splitOnP_append_cons_of_forall_mem (forall_beq_eq_false h) d (beq_self_eq_true d) xs

theorem lines_of_notMem (h : d ∉ xs) : lines d xs = [] := by
  simp [lines, splitOn_of_notMem h]

theorem tail_of_notMem (h : d ∉ xs) : tail d xs = xs := by
  simp [tail, splitOn_of_notMem h]

theorem lines_append_cons {l : List α} (h : d ∉ l) (xs : List α) :
    lines d (l ++ d :: xs) = l :: lines d xs := by
  rw [lines, splitOn_append_cons h, List.dropLast_cons_of_ne_nil (List.splitOn_ne_nil d xs), lines]

theorem tail_append_cons {l : List α} (h : d ∉ l) (xs : List α) :
    tail d (l ++ d :: xs) = tail d xs := by
  simp only [tail, splitOn_append_cons h, List.getLast_cons (List.splitOn_ne_nil d xs)]

/-- Induction on the lines of a file. -/
theorem lines_induction {motive : List α → Prop} (htail : ∀ xs, d ∉ xs → motive xs)
    (hline : ∀ l xs, d ∉ l → motive xs → motive (l ++ d :: xs)) (xs : List α) : motive xs := by
  by_cases h : d ∈ xs
  · obtain ⟨l, rest, hxs, hl⟩ := List.eq_append_cons_of_mem h
    rw [hxs]
    exact hline l rest hl (lines_induction htail hline rest)
  · exact htail xs h
termination_by xs.length
decreasing_by
  rw [hxs, List.length_append, List.length_cons]
  omega

/-- The parts of lists that are joined by a delimiter are those of the lists. -/
theorem splitOn_append (xs ys : List α) :
    (xs ++ d :: ys).splitOn d = xs.splitOn d ++ ys.splitOn d := by
  induction xs using lines_induction (d := d) with
  | htail xs h => rw [splitOn_append_cons h, splitOn_of_notMem h, List.singleton_append]
  | hline l xs hl ih =>
    rw [List.append_assoc, List.cons_append, splitOn_append_cons hl, ih, splitOn_append_cons hl,
      List.cons_append]

/-- The last line of a file, and what comes after it. -/
theorem exists_splitOn_unlines_concat {l : List α} (h : d ∉ l) (ls : List (List α)) :
    ∃ before, (unlines d (ls ++ [l])).splitOn d = before ++ [l, []] := by
  have hnil : ([] : List α).splitOn d = [[]] := splitOn_of_notMem List.not_mem_nil
  rw [unlines_concat, splitOn_append, hnil]
  obtain rfl | ⟨ls, l', rfl⟩ := List.eq_nil_or_concat ls
  · exact ⟨[], by rw [unlines_nil, List.nil_append, splitOn_of_notMem h]; rfl⟩
  · refine ⟨(unlines d ls ++ l').splitOn d, ?_⟩
    rw [List.concat_eq_append, unlines_concat, List.append_assoc, List.singleton_append,
      splitOn_append, splitOn_of_notMem h, List.append_assoc]
    rfl

/-- The tail is that of what comes after any delimiter. -/
theorem tail_append (xs ys : List α) : tail d (xs ++ d :: ys) = tail d ys := by
  simp only [tail, splitOn_append, List.getLast_append_of_ne_nil _ (List.splitOn_ne_nil d ys)]

/-- A list is its lines and its tail. -/
theorem unlines_lines_append_tail (xs : List α) : unlines d (lines d xs) ++ tail d xs = xs := by
  induction xs using lines_induction (d := d) with
  | htail xs h => simp [lines_of_notMem h, tail_of_notMem h]
  | hline l xs hl ih => rw [lines_append_cons hl, tail_append_cons hl, unlines_cons,
      List.append_assoc, List.cons_append, ih]

theorem notMem_tail (xs : List α) : d ∉ tail d xs := by
  induction xs using lines_induction (d := d) with
  | htail xs h => rwa [tail_of_notMem h]
  | hline l xs hl ih => rwa [tail_append_cons hl]

/-- There is no delimiter in a line. -/
theorem notMem_of_mem_lines (xs : List α) : ∀ l ∈ lines d xs, d ∉ l := by
  induction xs using lines_induction (d := d) with
  | htail xs h => simp [lines_of_notMem h]
  | hline l xs hl ih =>
    rw [lines_append_cons hl]
    exact List.forall_mem_cons.2 ⟨hl, ih⟩

theorem length_lines_le (xs : List α) : (lines d xs).length ≤ xs.length := by
  induction xs using lines_induction (d := d) with
  | htail xs h => simp [lines_of_notMem h]
  | hline l xs hl ih =>
    rw [lines_append_cons hl, List.length_cons, List.length_append, List.length_cons]
    omega

/-- The lines that a list begins with are its first lines. -/
theorem lines_unlines_append {ls : List (List α)} (h : ∀ l ∈ ls, d ∉ l) (xs : List α) :
    lines d (unlines d ls ++ xs) = ls ++ lines d xs := by
  induction ls with
  | nil => rfl
  | cons l ls ih =>
    rw [List.forall_mem_cons] at h
    rw [unlines_cons, List.append_assoc, List.cons_append, lines_append_cons h.1, ih h.2,
      List.cons_append]

/-- Writing to a file adds the lines that go on from its tail. -/
theorem lines_append (xs ys : List α) :
    lines d (xs ++ ys) = lines d xs ++ lines d (tail d xs ++ ys) := by
  have h := lines_unlines_append (notMem_of_mem_lines (d := d) xs) (tail d xs ++ ys)
  rwa [← List.append_assoc, unlines_lines_append_tail] at h

theorem readUntil_of_notMem (h : d ∉ xs) : readUntil d xs = xs := by
  have hne : ∀ x ∈ xs, (x != d) = true := by simpa [bne] using forall_beq_eq_false h
  rw [readUntil, List.takeWhile_eq_self_iff.2 hne, List.dropWhile_eq_nil_iff.2 hne,
    List.take_nil, List.append_nil]

/-- What is read ends with the first delimiter. -/
theorem readUntil_append_cons {l : List α} (h : d ∉ l) (xs : List α) :
    readUntil d (l ++ d :: xs) = l ++ [d] := by
  have hne : ∀ x ∈ l, (x != d) = true := by simpa [bne] using forall_beq_eq_false h
  rw [readUntil, List.takeWhile_append_of_pos hne, List.dropWhile_append_of_pos hne]
  simp

theorem rposition_of_notMem (h : d ∉ xs) : rposition d xs = none := by
  rw [rposition, Option.map_eq_none_iff, List.findIdx?_eq_none_iff]
  exact fun x hx => forall_beq_eq_false h x (List.mem_reverse.1 hx)

/-- The last delimiter is found. -/
theorem rposition_append_cons {l : List α} (h : d ∉ l) (xs : List α) :
    rposition d (xs ++ d :: l) = some xs.length := by
  have hl : (l.reverse).findIdx? (· == d) = none := by
    rw [List.findIdx?_eq_none_iff]
    exact fun x hx => forall_beq_eq_false h x (List.mem_reverse.1 hx)
  simp [rposition, List.findIdx?_append, hl, List.findIdx?_cons]

end Split

/-! ## Text -/

/-- The text that some bytes are in UTF-8. -/
def fromUtf8 (bytes : List UInt8) : Option String := String.fromUTF8? bytes.toByteArray

/-- The bytes of a text. -/
def encode (chars : List Char) : List UInt8 := chars.flatMap String.utf8EncodeChar

variable {bytes bytes' : List UInt8} {b : UInt8} {a c : Char}

@[simp]
theorem encode_nil : encode [] = [] := rfl

@[simp]
theorem encode_cons (c : Char) (cs : List Char) :
    encode (c :: cs) = String.utf8EncodeChar c ++ encode cs :=
  List.flatMap_cons

@[simp]
theorem encode_append (cs cs' : List Char) : encode (cs ++ cs') = encode cs ++ encode cs' :=
  List.flatMap_append

/-- Bytes are read as the text that they encode. -/
theorem fromUtf8_eq_some_iff {s : String} : fromUtf8 bytes = some s ↔ encode s.toList = bytes := by
  have hs : (encode s.toList).toByteArray = s.toByteArray := String.utf8Encode_toList
  rw [← List.toByteArray_inj, hs, fromUtf8, String.fromUTF8?]
  split
  · rw [Option.some.injEq, ← String.toByteArray_inj, eq_comm]
    rfl
  · rename_i h
    constructor
    · rintro ⟨⟩
    · intro heq
      exact absurd (heq ▸ s.isValidUTF8) h

/-- Bytes are a text if they encode some characters. -/
theorem isSome_fromUtf8_iff : (fromUtf8 bytes).isSome ↔ ∃ cs, encode cs = bytes := by
  rw [Option.isSome_iff_exists]
  constructor
  · rintro ⟨s, hs⟩
    exact ⟨s.toList, fromUtf8_eq_some_iff.1 hs⟩
  · rintro ⟨cs, hcs⟩
    refine ⟨String.ofList cs, fromUtf8_eq_some_iff.2 ?_⟩
    rwa [String.toList_ofList]

/-- A small byte in the encoding of a character is the character. -/
theorem toNat_of_mem_utf8EncodeChar (hb : b ∈ String.utf8EncodeChar c) (hlt : b.toNat < 128) :
    b.toNat = c.val.toNat := by
  unfold String.utf8EncodeChar at hb
  dsimp only at hb
  split at hb
  · rw [List.mem_singleton.1 hb, UInt8.toNat_ofNat']
    omega
  · -- The bytes of the longer characters are at least `0x80`.
    exfalso
    repeat' split at hb
    all_goals
      simp only [List.mem_cons, List.not_mem_nil, or_false] at hb
      rcases hb with rfl | rfl | rfl | rfl
      all_goals
        rw [UInt8.toNat_ofNat'] at hlt
        omega

theorem toNat_lt_of_utf8EncodeChar (ha : String.utf8EncodeChar a = [b]) : b.toNat < 128 := by
  have hsize : a.utf8Size = 1 := by
    rw [← String.length_utf8EncodeChar, ha]
    rfl
  rw [String.utf8EncodeChar_eq_singleton hsize, List.cons.injEq] at ha
  have hle := UInt32.le_iff_toNat_le.1 (Char.utf8Size_eq_one_iff.1 hsize)
  rw [← ha.1, UInt32.toNat_toUInt8]
  exact Nat.lt_of_le_of_lt (Nat.mod_le _ _) (Nat.lt_succ_of_le hle)

/-- The byte of a character of one byte is part of no other character. -/
theorem eq_of_mem_utf8EncodeChar (ha : String.utf8EncodeChar a = [b])
    (hb : b ∈ String.utf8EncodeChar c) : c = a := by
  have hlt := toNat_lt_of_utf8EncodeChar ha
  have hchar := toNat_of_mem_utf8EncodeChar (ha ▸ List.mem_singleton_self b) hlt
  have hother := toNat_of_mem_utf8EncodeChar hb hlt
  exact Char.val_inj.1 (UInt32.toNat_inj.1 (hother.symm.trans hchar))

/-- Encoded characters can be split at a byte that is a character of its own. -/
theorem encode_eq_append_cons (ha : String.utf8EncodeChar a = [b]) {cs : List Char}
    (h : encode cs = bytes ++ b :: bytes') :
    ∃ cs₁ cs₂, cs = cs₁ ++ a :: cs₂ ∧ encode cs₁ = bytes ∧ encode cs₂ = bytes' := by
  induction cs generalizing bytes with
  | nil => simp at h
  | cons c cs ih =>
    rw [encode_cons, List.append_eq_append_iff] at h
    obtain ⟨rest, rfl, h⟩ | ⟨rest, hc, h⟩ := h
    · obtain ⟨cs₁, cs₂, rfl, rfl, rfl⟩ := ih h
      exact ⟨c :: cs₁, cs₂, rfl, rfl, rfl⟩
    · -- The byte `b` comes right after the character `c`, or it is part of it.
      cases rest with
      | nil =>
        rw [List.append_nil] at hc
        have hnext : encode cs = [] ++ b :: bytes' := h.symm
        obtain ⟨cs₁, cs₂, rfl, hcs₁, rfl⟩ := ih hnext
        refine ⟨c :: cs₁, cs₂, rfl, ?_, rfl⟩
        rw [encode_cons, hcs₁, hc, List.append_nil]
      | cons b' rest =>
        rw [List.cons_append, List.cons.injEq] at h
        obtain ⟨rfl, rfl⟩ := h
        have hca := eq_of_mem_utf8EncodeChar ha (hc ▸ List.mem_append_right _ List.mem_cons_self)
        rw [hca, ha, List.singleton_eq_append_iff] at hc
        simp only [List.cons.injEq, reduceCtorEq, and_false, or_false, true_and] at hc
        exact ⟨[], cs, by rw [hca]; rfl, hc.1.symm, by rw [hc.2]; rfl⟩

/-- The byte of a character of one byte is in a text only if the character is. -/
theorem mem_of_mem_encode (ha : String.utf8EncodeChar a = [b]) {cs : List Char}
    (h : b ∈ encode cs) : a ∈ cs := by
  obtain ⟨bytes, bytes', heq⟩ := List.append_of_mem h
  obtain ⟨cs₁, cs₂, rfl, -, -⟩ := encode_eq_append_cons ha heq
  exact List.mem_append_right _ List.mem_cons_self

theorem fromUtf8_encode (s : String) : fromUtf8 (encode s.toList) = some s :=
  fromUtf8_eq_some_iff.2 rfl

/-- A character has at most four bytes. -/
theorem length_encode_le (cs : List Char) : (encode cs).length ≤ 4 * cs.length := by
  induction cs with
  | nil => rfl
  | cons c cs ih =>
    have hc := c.utf8Size_le_four
    rw [encode_cons, List.length_append, String.length_utf8EncodeChar, List.length_cons]
    omega

/-- Bytes with such a byte are text if both sides of it are. -/
theorem isSome_fromUtf8_append_cons (ha : String.utf8EncodeChar a = [b]) :
    (fromUtf8 (bytes ++ b :: bytes')).isSome ↔
      (fromUtf8 bytes).isSome ∧ (fromUtf8 bytes').isSome := by
  simp only [isSome_fromUtf8_iff]
  constructor
  · rintro ⟨cs, hcs⟩
    obtain ⟨cs₁, cs₂, -, hcs₁, hcs₂⟩ := encode_eq_append_cons ha hcs
    exact ⟨⟨cs₁, hcs₁⟩, cs₂, hcs₂⟩
  · rintro ⟨⟨cs₁, rfl⟩, cs₂, rfl⟩
    exact ⟨cs₁ ++ a :: cs₂, by rw [encode_append, encode_cons, ha]; rfl⟩

/-- A byte at the end that is a character is the last one of the text. -/
theorem fromUtf8_concat (ha : String.utf8EncodeChar a = [b]) (bytes : List UInt8) :
    fromUtf8 (bytes ++ [b]) = (fromUtf8 bytes).map (·.push a) := by
  cases hs : fromUtf8 bytes with
  | none =>
    rw [Option.map_none, ← Option.not_isSome_iff_eq_none, isSome_fromUtf8_append_cons ha, hs]
    simp
  | some s =>
    rw [Option.map_some, fromUtf8_eq_some_iff, String.toList_push, encode_append,
      fromUtf8_eq_some_iff.1 hs, encode_cons, ha, encode_nil, List.append_nil]

end Lines
