import Mathlib.Data.Countable.Basic
import Mathlib.Data.Nat.Digits.Lemmas
import Nanoreth.Lib.Partial

/-!
# RLP

The encoding of Ethereum. An item is a string of bytes or a list of items, and starts with
a header that has its kind and the length of its payload (`Header`); a single byte below
`0x80` is its own encoding. Headers are decoded canonically only.

A codec encodes values, gives the lengths of their encodings, and decodes them from the
front of a buffer, returning the rest of it (`Codec`). It is lawful if the lengths are right
and if decoding an encoding, followed by any other bytes, gives the value and these bytes
(`Codec.Lawful`). This holds of strings, numbers, lists and records:

* a record is a list of its fields (`record`);
* fields may be missing at its end (`Fields.optional`). The missing ones after the last
  present one are left out, and the others are written as the empty string `0x80`, so that
  no present value may start with this byte (`Codec.NeverEmptyString`).

Lengths are machine integers of 64 bits. Encodings that are longer do not fit in memory,
and codecs need not be lawful for them.
-/

namespace Rlp

open Partial

/-- A sequence of bytes. -/
abbrev Bytes := List UInt8

/-- Why a buffer is not decoded. -/
inductive Error
  | inputTooShort
  | unexpectedString
  | unexpectedList
  | unexpectedLength
  | nonCanonicalSingleByte
  | nonCanonicalSize
  | leadingZero
  | overflow
  | listLengthMismatch (expected got : ℕ)
  | custom (message : String)
  deriving DecidableEq

/-! ## Numbers -/

/-- The bytes of a number, from the most significant one on, without leading zeros. -/
def beBytes (n : ℕ) : Bytes :=
  ((Nat.digits 256 n).map UInt8.ofNat).reverse

/-- The number of bytes given from the most significant one on. -/
def ofBeBytes (bytes : Bytes) : ℕ :=
  Nat.ofDigits 256 (bytes.reverse.map UInt8.toNat)

/-- The digits of a number in base 256 are bytes. -/
theorem toNat_ofNat_digits (n : ℕ) :
    ((Nat.digits 256 n).map UInt8.ofNat).map UInt8.toNat = Nat.digits 256 n := by
  rw [List.map_map]
  conv_rhs => rw [← List.map_id (Nat.digits 256 n)]
  refine List.map_congr_left fun d hd => ?_
  exact UInt8.toNat_ofNat_of_lt' (Nat.digits_lt_base (by decide) hd)

/-- A number is read back from its bytes. -/
@[simp]
theorem ofBeBytes_beBytes (n : ℕ) : ofBeBytes (beBytes n) = n := by
  rw [ofBeBytes, beBytes, List.reverse_reverse, toNat_ofNat_digits, Nat.ofDigits_digits]

theorem length_beBytes (n : ℕ) : (beBytes n).length = (Nat.digits 256 n).length := by
  rw [beBytes, List.length_reverse, List.length_map]

/-- A number has at most `k` bytes if it fits into them. -/
theorem length_beBytes_le_iff {n k : ℕ} : (beBytes n).length ≤ k ↔ n < 256 ^ k := by
  rw [length_beBytes, Nat.digits_length_le_iff (by decide)]

theorem beBytes_zero : beBytes 0 = [] := by
  rw [beBytes, Nat.digits_zero]
  rfl

theorem beBytes_ne_nil {n : ℕ} (h : n ≠ 0) : beBytes n ≠ [] := by
  rw [Ne, beBytes, List.reverse_eq_nil_iff, List.map_eq_nil_iff]
  exact Nat.digits_ne_nil_iff_ne_zero.2 h

/-- The first byte of a number is not zero. -/
theorem head_beBytes {n : ℕ} {b : UInt8} (h : (beBytes n).head? = some b) : b.toNat ≠ 0 := by
  have hn : n ≠ 0 := by
    rintro rfl
    rw [beBytes_zero] at h
    cases h
  have hdigits := Nat.digits_ne_nil_iff_ne_zero (b := 256).2 hn
  rw [beBytes, List.head?_reverse, List.getLast?_map,
    List.getLast?_eq_some_getLast hdigits, Option.map_some, Option.some.injEq] at h
  rw [← h, UInt8.toNat_ofNat_of_lt' (Nat.digits_lt_base (by decide) (List.getLast_mem hdigits))]
  exact Nat.getLast_digit_ne_zero 256 hn

/-- Whether bytes start with a zero, as those of a number never do. -/
def leadingZero (bytes : Bytes) : Bool :=
  bytes.head?.any (·.toNat == 0)

/-- The bytes of a number have no leading zero. -/
theorem leadingZero_beBytes (n : ℕ) : leadingZero (beBytes n) = false := by
  cases h : (beBytes n).head? with
  | none => rw [leadingZero, h, Option.any_none]
  | some b =>
    rw [leadingZero, h, Option.any_some]
    exact beq_false_of_ne (head_beBytes h)

theorem length_beBytes_le_eight {n : ℕ} (h : n < 2 ^ 64) : (beBytes n).length ≤ 8 :=
  length_beBytes_le_iff.2 (by simpa using h)

/-! ## Headers -/

/-- The header of an item: its kind, and the length of its payload. -/
structure Header where
  list : Bool
  payloadLength : ℕ
  deriving DecidableEq

namespace Header

/-- The code of an empty item. -/
def code (list : Bool) : ℕ := if list then 0xC0 else 0x80

/-- A short payload has its length in the first byte, a long one in bytes of its own. -/
def encode (header : Header) : Bytes :=
  if header.payloadLength < 56 then [UInt8.ofNat (code header.list + header.payloadLength)]
  else
    UInt8.ofNat (code header.list + 55 + (beBytes header.payloadLength).length) ::
      beBytes header.payloadLength

/-- The payload of a header must be in the buffer. -/
def check (header : Header) (buf : Bytes) : Except Error (Header × Bytes) :=
  if buf.length < header.payloadLength then .error .inputTooShort else .ok (header, buf)

/-- Decodes a header with a length of `lengthOfLength` bytes. -/
def decodeLong (list : Bool) (lengthOfLength : ℕ) (buf : Bytes) : Except Error (Header × Bytes) :=
  if buf.length < lengthOfLength then .error .inputTooShort
  else
    let bytes := buf.take lengthOfLength
    if leadingZero bytes then .error .leadingZero
    else if ofBeBytes bytes < 56 then .error .nonCanonicalSize
    else check ⟨list, ofBeBytes bytes⟩ (buf.drop lengthOfLength)

/-- Checks that the single byte of a payload needs a header. -/
def checkByte (buf : Bytes) : Except Error (Header × Bytes) :=
  match buf.head? with
  | none => .error .inputTooShort
  | some b => if b.toNat < 0x80 then .error .nonCanonicalSingleByte else check ⟨false, 1⟩ buf

/-- Decodes a header that starts with the byte `b`. A single byte below `0x80` has no header,
    and stays in the buffer. -/
def decodeFrom (b : UInt8) (buf : Bytes) : Except Error (Header × Bytes) :=
  if b.toNat < 0x80 then check ⟨false, 1⟩ (b :: buf)
  else if b.toNat = 0x81 then checkByte buf
  else if b.toNat < 0xB8 then check ⟨false, b.toNat - 0x80⟩ buf
  else if b.toNat < 0xC0 then decodeLong false (b.toNat - 0xB7) buf
  else if b.toNat < 0xF8 then check ⟨true, b.toNat - 0xC0⟩ buf
  else decodeLong true (b.toNat - 0xF7) buf

/-- Decodes a header from the front of a buffer. -/
def decode : Bytes → Except Error (Header × Bytes)
  | [] => .error .inputTooShort
  | b :: buf => decodeFrom b buf

variable {header : Header} {buf : Bytes}

/-- The codes of headers are bytes. -/
theorem toNat_ofNat_code (list : Bool) {k : ℕ} (h : k < 64) :
    (UInt8.ofNat (code list + k)).toNat = code list + k := by
  refine UInt8.toNat_ofNat_of_lt' ?_
  rw [code]
  split_ifs <;> simp only [UInt8.size] <;> omega

/-- A header is accepted if there are enough bytes for its payload. -/
theorem check_eq_ok (h : header.payloadLength ≤ buf.length) :
    check header buf = .ok (header, buf) :=
  if_neg (Nat.not_lt.2 h)

/-- A header is accepted before a single byte if the byte is not small. -/
theorem checkByte_eq_ok (h : 1 ≤ buf.length) (hbyte : ∀ b ∈ buf.head?, 0x80 ≤ b.toNat) :
    checkByte buf = .ok (⟨false, 1⟩, buf) := by
  cases buf with
  | nil => cases h
  | cons b buf =>
    have := hbyte b rfl
    simp only [checkByte, List.head?_cons, if_neg (Nat.not_lt.2 this)]
    exact check_eq_ok h

/-- A long length is read back. -/
theorem decodeLong_beBytes (list : Bool) {length : ℕ} (h : length ≤ buf.length)
    (hlong : 56 ≤ length) :
    decodeLong list (beBytes length).length (beBytes length ++ buf) =
      .ok (⟨list, length⟩, buf) := by
  rw [decodeLong, if_neg (by simp), List.take_left, List.drop_left]
  simp only [leadingZero_beBytes, Bool.false_eq_true, if_false, ofBeBytes_beBytes,
    if_neg (Nat.not_lt.2 hlong)]
  exact check_eq_ok h

/-- The first byte tells the length of a short payload. -/
theorem decodeFrom_short (list : Bool) {length : ℕ} (hshort : length < 56)
    (h : length ≤ buf.length)
    (hbyte : list = false → length = 1 → ∀ b ∈ buf.head?, 0x80 ≤ b.toNat) :
    decodeFrom (UInt8.ofNat (code list + length)) buf = .ok (⟨list, length⟩, buf) := by
  rw [decodeFrom, toNat_ofNat_code list (by omega)]
  cases list with
  | true =>
    simp only [code, if_true]
    rw [if_neg (by omega), if_neg (by omega), if_neg (by omega), if_neg (by omega),
      if_pos (by omega), Nat.add_sub_cancel_left]
    exact check_eq_ok h
  | false =>
    simp only [code, Bool.false_eq_true, if_false]
    rw [if_neg (by omega)]
    by_cases hone : length = 1
    · -- A single byte with a header is one from `0x80` on.
      subst hone
      rw [if_pos rfl]
      exact checkByte_eq_ok h (hbyte rfl rfl)
    · rw [if_neg (by omega), if_pos (by omega), Nat.add_sub_cancel_left]
      exact check_eq_ok h

/-- The first byte tells how many bytes the length of a long payload has. -/
theorem decodeFrom_long (list : Bool) {n : ℕ} (hpos : 0 < n) (hle : n ≤ 8) :
    decodeFrom (UInt8.ofNat (code list + (55 + n))) buf = decodeLong list n buf := by
  rw [decodeFrom, toNat_ofNat_code list (by omega)]
  cases list with
  | true =>
    simp only [code, if_true]
    rw [if_neg (by omega), if_neg (by omega), if_neg (by omega), if_neg (by omega),
      if_neg (by omega), show 0xC0 + (55 + n) - 0xF7 = n by omega]
  | false =>
    simp only [code, Bool.false_eq_true, if_false]
    rw [if_neg (by omega), if_neg (by omega), if_neg (by omega), if_pos (by omega),
      show 0x80 + (55 + n) - 0xB7 = n by omega]

/-- Decoding the header of an item gives it, and leaves the payload. -/
theorem decode_encode (h : header.payloadLength ≤ buf.length)
    (hbound : header.payloadLength < 2 ^ 64)
    (hbyte : header.list = false → header.payloadLength = 1 →
      ∀ b ∈ buf.head?, 0x80 ≤ b.toNat) :
    decode (header.encode ++ buf) = .ok (header, buf) := by
  by_cases hshort : header.payloadLength < 56
  · rw [encode, if_pos hshort, List.singleton_append, decode]
    exact decodeFrom_short header.list hshort h hbyte
  · have hle : 56 ≤ header.payloadLength := Nat.not_lt.1 hshort
    have hpos : 0 < (beBytes header.payloadLength).length :=
      List.length_pos_iff.2 (beBytes_ne_nil (by omega))
    rw [encode, if_neg hshort, List.cons_append, decode, Nat.add_assoc,
      decodeFrom_long header.list hpos (length_beBytes_le_eight hbound)]
    exact decodeLong_beBytes header.list h hle

/-- Only the empty string starts with the byte `0x80`. -/
theorem head_encode (hbound : header.payloadLength < 2 ^ 64)
    (h : header.list = false → header.payloadLength ≠ 0) (payload : Bytes) :
    ∃ b tail, header.encode ++ payload = b :: tail ∧ b ≠ 0x80 := by
  have hle := length_beBytes_le_eight hbound
  -- No header but that of the empty text has the code of the empty text.
  have hcode : ∀ k < 64, (header.list = false → k ≠ 0) →
      UInt8.ofNat (code header.list + k) ≠ 0x80 := by
    intro k hk hne heq
    have htoNat : code header.list + k = 0x80 := by
      rw [← toNat_ofNat_code header.list hk, heq]
      rfl
    rw [code] at htoNat
    cases hlist : header.list with
    | true =>
      rw [hlist, if_pos rfl] at htoNat
      omega
    | false =>
      rw [hlist, if_neg Bool.false_ne_true] at htoNat
      exact hne hlist (by omega)
  unfold encode
  split_ifs with hshort
  · exact ⟨_, _, rfl, hcode _ (by omega) h⟩
  · rw [Nat.add_assoc]
    exact ⟨_, _, rfl, hcode _ (by omega) fun _ => by omega⟩

/-- The number of bytes of a header. -/
def lengthOfLength (payloadLength : ℕ) : ℕ :=
  if payloadLength < 56 then 1 else 1 + (beBytes payloadLength).length

/-- A header has the length that is computed for it. -/
theorem length_encode (header : Header) :
    header.encode.length = lengthOfLength header.payloadLength := by
  unfold encode lengthOfLength
  split_ifs
  · rfl
  · rw [List.length_cons, Nat.add_comm]

/-- Decodes the payload of an item of the given kind. -/
def decodeBytes (list : Bool) (buf : Bytes) : Except Error (Bytes × Bytes) := do
  let (header, buf) ← decode buf
  if header.list ≠ list then .error (if header.list then .unexpectedList else .unexpectedString)
  else .ok (buf.take header.payloadLength, buf.drop header.payloadLength)

/-- The payload is what comes after the header. -/
theorem decodeBytes_of_decode {list : Bool} {buf payload rest : Bytes}
    (h : decode buf = .ok (⟨list, payload.length⟩, payload ++ rest)) :
    decodeBytes list buf = .ok (payload, rest) := by
  rw [decodeBytes, h]
  change (if list ≠ list then _ else Except.ok ((payload ++ rest).take payload.length,
    (payload ++ rest).drop payload.length)) = _
  rw [if_neg (not_not_intro rfl), List.take_left, List.drop_left]

end Header

/-! ## Codecs -/

/-- How values are encoded, and decoded from the front of a buffer. -/
structure Codec (α : Type) where
  encode : α → Bytes
  /-- The length of an encoding, computed without encoding. -/
  length : α → ℕ
  decode : Bytes → Except Error (α × Bytes)

namespace Codec

variable {α β : Type}

/-- Decoding is the inverse of encoding, whatever follows, for encodings that fit in memory. -/
structure Lawful (c : Codec α) : Prop where
  length_eq : ∀ x, c.length x = (c.encode x).length
  decode_encode : ∀ x rest, (c.encode x).length < 2 ^ 64 →
    c.decode (c.encode x ++ rest) = .ok (x, rest)

/-- Decoding is the inverse of encoding, whatever follows. -/
structure RoundTrips (c : Codec α) : Prop where
  length_eq : ∀ x, c.length x = (c.encode x).length
  decode_encode : ∀ x rest, c.decode (c.encode x ++ rest) = .ok (x, rest)

/-- What is read back from any encoding is read back from short ones. -/
theorem RoundTrips.lawful {c : Codec α} (h : c.RoundTrips) : c.Lawful :=
  ⟨h.length_eq, fun x rest _ => h.decode_encode x rest⟩

/-- The values of a type with two of them are not encoded by nothing. -/
theorem RoundTrips.encode_ne_nil [Nontrivial α] {c : Codec α} (h : c.RoundTrips) (x : α) :
    c.encode x ≠ [] := by
  intro hx
  obtain ⟨y, hy⟩ := exists_ne x
  -- What is left of the encoding of another value would decode to both.
  have hdecode := h.decode_encode x (c.encode y)
  rw [hx, List.nil_append, ← List.append_nil (c.encode y), h.decode_encode] at hdecode
  exact hy (Prod.mk.inj (Except.ok.inj hdecode)).1

/-- The values of a countable type can be written as numbers, in unary. -/
theorem exists_roundTrips (α : Type) [Countable α] : ∃ c : Codec α, c.RoundTrips := by
  obtain ⟨f, hf⟩ := exists_injective_nat α
  classical
  let decode (buf : Bytes) : Except Error (α × Bytes) :=
    if h : ∃ x, f x = (buf.takeWhile (· = 1)).length then
      .ok (h.choose, buf.drop (f h.choose + 1))
    else .error (.custom "not the number of a value")
  let c : Codec α :=
    { encode := fun x => List.replicate (f x) 1 ++ [0]
      length := fun x => f x + 1
      decode := decode }
  have hlength (x : α) : f x + 1 = (c.encode x).length := by simp [c]
  refine ⟨c, hlength, fun x rest => ?_⟩
  · have htake : ((c.encode x ++ rest).takeWhile (· = 1)).length = f x := by
      simp [c]
    have hex : ∃ y, f y = ((c.encode x ++ rest).takeWhile (· = 1)).length := ⟨x, htake.symm⟩
    have hx : hex.choose = x := hf (hex.choose_spec.trans htake)
    change decode (c.encode x ++ rest) = _
    rw [show decode (c.encode x ++ rest) = .ok (hex.choose, _) from dif_pos hex, hx, hlength,
      List.drop_left]

/-- No encoding starts with the empty string. -/
def NeverEmptyString (c : Codec α) : Prop :=
  ∀ x, (c.encode x).length < 2 ^ 64 → ∃ b bytes, c.encode x = b :: bytes ∧ b ≠ 0x80

/-- The codec of values that are converted from and to those of `c`. -/
def convert (c : Codec α) (f : β → α) (g : α → Except Error β) : Codec β where
  encode x := c.encode (f x)
  length x := c.length (f x)
  decode buf := do
    let (a, rest) ← c.decode buf
    let x ← g a
    return (x, rest)

/-- Converted values are read back, if they can be converted back. -/
theorem Lawful.convert {c : Codec α} (h : c.Lawful) {f : β → α} {g : α → Except Error β}
    (hfg : ∀ x, (c.encode (f x)).length < 2 ^ 64 → g (f x) = .ok x) :
    (c.convert f g).Lawful where
  length_eq x := h.length_eq (f x)
  decode_encode x rest hx := by
    change (c.decode (c.encode (f x) ++ rest) >>= _) = _
    rw [h.decode_encode (f x) rest hx]
    change (g (f x) >>= _) = _
    rw [hfg x hx]
    rfl

/-! ### Strings -/

/-- Whether a string is encoded with a header, as all but single bytes below `0x80` are. -/
def needsHeader : Bytes → Bool
  | [b] => 0x80 ≤ b.toNat
  | _ => true

/-- Texts of bytes. A small byte is its own encoding. -/
def string : Codec Bytes where
  encode bytes := if needsHeader bytes then Header.encode ⟨false, bytes.length⟩ ++ bytes else bytes
  length bytes :=
    if needsHeader bytes then bytes.length + Header.lengthOfLength bytes.length else bytes.length
  decode := Header.decodeBytes false

/-- Only a small byte has no header. -/
theorem needsHeader_eq_false {bytes : Bytes} (h : needsHeader bytes = false) :
    ∃ b, bytes = [b] ∧ b.toNat < 0x80 := by
  unfold needsHeader at h
  split at h
  · exact ⟨_, rfl, by simpa using h⟩
  · cases h

/-- Texts of bytes are read back. -/
theorem lawful_string : string.Lawful where
  length_eq bytes := by
    simp only [string]
    split_ifs
    · rw [List.length_append, Header.length_encode, Nat.add_comm]
    · rfl
  decode_encode bytes rest hbytes := by
    refine Header.decodeBytes_of_decode ?_
    simp only [string] at hbytes ⊢
    split_ifs at hbytes ⊢ with hheader
    · rw [List.length_append] at hbytes
      rw [List.append_assoc]
      refine Header.decode_encode (by simp) (by simp only; omega) fun _ hone b hb => ?_
      -- A single byte with a header is one from `0x80` on.
      obtain ⟨b', rfl⟩ := List.length_eq_one_iff.1 hone
      obtain rfl : b' = b := Option.some.inj hb
      exact of_decide_eq_true hheader
    · obtain ⟨b, rfl, hb⟩ := needsHeader_eq_false (Bool.eq_false_iff.2 hheader)
      rw [List.singleton_append, Header.decode, Header.decodeFrom, if_pos hb]
      exact Header.check_eq_ok (by simp)

/-- A string that is not empty is not encoded as the empty string. -/
theorem head_encode_string {bytes : Bytes} (h : bytes ≠ [])
    (hbytes : (string.encode bytes).length < 2 ^ 64) :
    ∃ b tail, string.encode bytes = b :: tail ∧ b ≠ 0x80 := by
  simp only [string] at hbytes ⊢
  split_ifs at hbytes ⊢ with hheader
  · rw [List.length_append] at hbytes
    exact Header.head_encode (by simp only; omega)
      (fun _ => (List.length_pos_iff.2 h).ne') bytes
  · obtain ⟨b, rfl, hb⟩ := needsHeader_eq_false (Bool.eq_false_iff.2 hheader)
    refine ⟨b, [], rfl, ?_⟩
    rintro rfl
    exact absurd hb (by decide)

/-! ### Numbers -/

/-- Decodes a number of `w` bits from its bytes. -/
def ofBytes (w : ℕ) (bytes : Bytes) : Except Error (BitVec w) :=
  if leadingZero bytes then .error .leadingZero
  else if ofBeBytes bytes < 2 ^ w then .ok (BitVec.ofNat w (ofBeBytes bytes))
  else .error .overflow

/-- Numbers of `w` bits, as strings of their bytes. -/
def uint (w : ℕ) : Codec (BitVec w) :=
  string.convert (fun n => beBytes n.toNat) (ofBytes w)

theorem lawful_uint (w : ℕ) : (uint w).Lawful := by
  refine lawful_string.convert fun n _ => ?_
  rw [ofBytes, leadingZero_beBytes, if_neg Bool.false_ne_true, ofBeBytes_beBytes, if_pos n.isLt,
    BitVec.ofNat_toNat, BitVec.setWidth_eq]

/-- A number as exactly `k` bytes. -/
def fixedBytes (k n : ℕ) : Bytes :=
  List.replicate (k - (beBytes n).length) 0 ++ beBytes n

/-- A number that fits is padded to the given length. -/
theorem length_fixedBytes {k n : ℕ} (h : n < 256 ^ k) : (fixedBytes k n).length = k := by
  have := length_beBytes_le_iff.2 h
  rw [fixedBytes, List.length_append, List.length_replicate]
  omega

/-- The padding does not change the number. -/
theorem ofBeBytes_fixedBytes (k n : ℕ) : ofBeBytes (fixedBytes k n) = n := by
  conv_rhs => rw [← ofBeBytes_beBytes n]
  rw [ofBeBytes, fixedBytes, List.reverse_append, List.map_append, Nat.ofDigits_append,
    List.reverse_replicate, List.map_replicate]
  change _ + _ * Nat.ofDigits 256 (List.replicate _ 0) = _
  rw [Nat.ofDigits_replicate_zero, Nat.mul_zero, Nat.add_zero, ofBeBytes]

/-- Words of `k` bytes. -/
def fixed (k : ℕ) : Codec (BitVec (8 * k)) :=
  string.convert (fun n => fixedBytes k n.toNat) fun bytes =>
    if bytes.length ≠ k then .error .unexpectedLength
    else .ok (BitVec.ofNat (8 * k) (ofBeBytes bytes))

theorem toNat_lt_pow {k : ℕ} (n : BitVec (8 * k)) : n.toNat < 256 ^ k := by
  have := n.isLt
  rwa [Nat.pow_mul] at this

theorem lawful_fixed (k : ℕ) : (fixed k).Lawful := by
  refine lawful_string.convert fun n _ => ?_
  rw [if_neg (not_not_intro (length_fixedBytes (toNat_lt_pow n))), ofBeBytes_fixedBytes,
    BitVec.ofNat_toNat, BitVec.setWidth_eq]

/-- A number of a fixed length is not encoded as the empty text. -/
theorem neverEmptyString_fixed {k : ℕ} (hk : 0 < k) : (fixed k).NeverEmptyString := by
  intro n hn
  have hencode : (fixed k).encode n = string.encode (fixedBytes k n.toNat) := rfl
  rw [hencode] at hn ⊢
  refine head_encode_string (fun hnil => hk.ne ?_) hn
  exact (List.length_eq_zero_iff.2 hnil).symm.trans (length_fixedBytes (toNat_lt_pow n))

/-! ### Lists -/

/-- Decodes values up to the end of a payload. -/
def decodeAll (c : Codec α) : ℕ → Bytes → Except Error (List α)
  | _, [] => .ok []
  | 0, _ :: _ => .error (.custom "out of fuel")
  | fuel + 1, buf => do
    let (x, rest) ← c.decode buf
    let xs ← decodeAll c fuel rest
    return x :: xs

/-- Lists of values. Every value takes at least a byte, so that there are no more of them than
    bytes. -/
def list (c : Codec α) : Codec (List α) where
  encode xs := Header.encode ⟨true, (xs.map c.length).sum⟩ ++ xs.flatMap c.encode
  length xs := (xs.map c.length).sum + Header.lengthOfLength (xs.map c.length).sum
  decode buf := do
    let (payload, rest) ← Header.decodeBytes true buf
    let xs ← decodeAll c payload.length payload
    return (xs, rest)

/-- The lengths that are computed for the elements are those of their encodings. -/
theorem Lawful.sum_length {c : Codec α} (h : c.Lawful) (xs : List α) :
    (xs.map c.length).sum = (xs.flatMap c.encode).length := by
  rw [List.length_flatMap]
  exact congrArg List.sum (List.map_congr_left fun x _ => h.length_eq x)

/-- The elements of a list are read back one after the other. -/
theorem Lawful.decodeAll_flatMap {c : Codec α} (h : c.Lawful) (hne : ∀ x, c.encode x ≠ [])
    {xs : List α} (hxs : (xs.flatMap c.encode).length < 2 ^ 64) {fuel : ℕ}
    (hfuel : xs.length ≤ fuel) : decodeAll c fuel (xs.flatMap c.encode) = .ok xs := by
  induction xs generalizing fuel with
  | nil => cases fuel <;> rfl
  | cons x xs ih =>
    rw [List.flatMap_cons, List.length_append] at hxs
    obtain ⟨b, bytes, hx⟩ := List.exists_cons_of_ne_nil (hne x)
    cases fuel with
    | zero => cases hfuel
    | succ fuel =>
      have hrest := ih (by omega) (Nat.le_of_succ_le_succ hfuel)
      have hdecode := h.decode_encode x (xs.flatMap c.encode) (by omega)
      rw [List.flatMap_cons, hx, List.cons_append, decodeAll, ← List.cons_append, ← hx, hdecode]
      · change (decodeAll c fuel (xs.flatMap c.encode) >>= _) = _
        rw [hrest]
        rfl
      · exact nofun

/-- There are at least as many bytes as elements. -/
theorem length_le_flatMap {c : Codec α} (hne : ∀ x, c.encode x ≠ []) (xs : List α) :
    xs.length ≤ (xs.flatMap c.encode).length := by
  induction xs with
  | nil => simp
  | cons x xs ih =>
    have := List.length_pos_iff.2 (hne x)
    rw [List.flatMap_cons, List.length_append, List.length_cons]
    omega

/-- Lists are read back. -/
theorem Lawful.list {c : Codec α} (h : c.Lawful) (hne : ∀ x, c.encode x ≠ []) :
    c.list.Lawful where
  length_eq xs := by
    simp only [Codec.list]
    rw [List.length_append, Header.length_encode, h.sum_length, Nat.add_comm]
  decode_encode xs rest hxs := by
    simp only [Codec.list, List.length_append] at hxs ⊢
    rw [h.sum_length, List.append_assoc] at *
    have hdecode : Header.decode (Header.encode ⟨true, (xs.flatMap c.encode).length⟩ ++
        (xs.flatMap c.encode ++ rest)) =
          .ok (⟨true, (xs.flatMap c.encode).length⟩, xs.flatMap c.encode ++ rest) :=
      Header.decode_encode (by simp) (by simp only; omega) nofun
    rw [Header.decodeBytes_of_decode hdecode]
    change (decodeAll c _ (xs.flatMap c.encode) >>= _) = _
    rw [h.decodeAll_flatMap hne (by omega) (length_le_flatMap hne xs)]
    rfl

/-- A list is not encoded as the empty text. -/
theorem Lawful.neverEmptyString_list {c : Codec α} (h : c.Lawful) : c.list.NeverEmptyString := by
  intro xs hxs
  simp only [Codec.list, List.length_append] at hxs ⊢
  rw [h.sum_length] at *
  exact Header.head_encode (by simp only; omega) (by simp) _

end Codec

/-! ## Records -/

/-- The fields of a record. -/
structure Fields (α : Type) where
  encode : α → Bytes
  length : α → ℕ
  /-- Whether a field has to be written. -/
  present : α → Bool
  /-- Decodes the fields when the given number of bytes is left of the payload. -/
  decode : ℕ → Bytes → Except Error (α × Bytes)

namespace Fields

variable {α β : Type}

/-- Decoding is the inverse of encoding when the payload ends with the fields. -/
structure Lawful (f : Fields α) : Prop where
  length_eq : ∀ x, f.length x = (f.encode x).length
  encode_eq_nil : ∀ x, f.present x = false → f.encode x = []
  decode_encode : ∀ x rest, (f.encode x).length < 2 ^ 64 →
    f.decode (f.encode x).length (f.encode x ++ rest) = .ok (x, rest)

/-- No fields. -/
def nil : Fields Unit where
  encode _ := []
  length _ := 0
  present _ := false
  decode _ buf := .ok ((), buf)

theorem lawful_nil : nil.Lawful :=
  ⟨fun _ => rfl, fun _ _ => rfl, fun _ _ _ => rfl⟩

/-- A field that is always written. -/
def required (c : Codec α) (f : Fields β) : Fields (α × β) where
  encode x := c.encode x.1 ++ f.encode x.2
  length x := c.length x.1 + f.length x.2
  present _ := true
  decode remaining buf := do
    let (a, tail) ← c.decode buf
    let (b, rest) ← f.decode (remaining - (buf.length - tail.length)) tail
    return ((a, b), rest)

/-- A field that has to be there is read back. -/
theorem Lawful.required {c : Codec α} {f : Fields β} (hc : c.Lawful) (hf : f.Lawful) :
    (f.required c).Lawful where
  length_eq x := by
    simp only [Fields.required]
    rw [List.length_append, hc.length_eq, hf.length_eq]
  encode_eq_nil x := nofun
  decode_encode x rest hx := by
    obtain ⟨a, b⟩ := x
    simp only [Fields.required, List.length_append, List.append_assoc] at hx ⊢
    rw [hc.decode_encode a _ (by omega)]
    change (f.decode _ (f.encode b ++ rest) >>= _) = _
    rw [show (c.encode a).length + (f.encode b).length -
        ((c.encode a).length + ((f.encode b).length + rest.length) -
          (f.encode b ++ rest).length) = (f.encode b).length by
      rw [List.length_append]
      omega, hf.decode_encode b rest (by omega)]
    rfl

/-- Decodes a field that may be missing: nothing is left of the payload, or the empty string
    stands for it. -/
def decodeOption (c : Codec α) (remaining : ℕ) (buf : Bytes) :
    Except Error (Option α × Bytes) :=
  if remaining = 0 then .ok (none, buf)
  else if buf.head? = some 0x80 then .ok (none, buf.tail)
  else do
    let (a, tail) ← c.decode buf
    return (some a, tail)

/-- A field that may be missing. If it is, it is written when a later one is present. -/
def optional (c : Codec α) (f : Fields β) : Fields (Option α × β) where
  encode
    | (some a, b) => c.encode a ++ f.encode b
    | (none, b) => if f.present b then 0x80 :: f.encode b else f.encode b
  length
    | (some a, b) => c.length a + f.length b
    | (none, b) => if f.present b then 1 + f.length b else f.length b
  present x := x.1.isSome || f.present x.2
  decode remaining buf := do
    let (a, tail) ← decodeOption c remaining buf
    let (b, rest) ← f.decode (remaining - (buf.length - tail.length)) tail
    return ((a, b), rest)

/-- A field that may be missing is read back if it is there. -/
theorem decodeOption_encode {c : Codec α} (hc : c.Lawful) (hne : c.NeverEmptyString) {a : α}
    (ha : (c.encode a).length < 2 ^ 64) {remaining : ℕ} (hremaining : remaining ≠ 0)
    (rest : Bytes) :
    decodeOption c remaining (c.encode a ++ rest) = .ok (some a, rest) := by
  obtain ⟨b, tail, htail, hb⟩ := hne a ha
  have hhead : (c.encode a ++ rest).head? ≠ some 0x80 := by
    rw [htail, List.cons_append, List.head?_cons]
    exact fun h => hb (Option.some.inj h)
  rw [decodeOption, if_neg hremaining, if_neg hhead, hc.decode_encode a rest ha]
  rfl

/-- What is read of an optional field leaves the other fields, and the bytes they take. -/
theorem decode_optional {c : Codec α} {f : Fields β} (hf : f.Lawful) {a : Option α} {b : β}
    {head rest : Bytes} (hbound : (head ++ f.encode b).length < 2 ^ 64)
    (hdecode : decodeOption c (head ++ f.encode b).length (head ++ f.encode b ++ rest) =
      .ok (a, f.encode b ++ rest)) :
    (f.optional c).decode (head ++ f.encode b).length (head ++ f.encode b ++ rest) =
      .ok ((a, b), rest) := by
  rw [List.length_append] at hbound
  change (decodeOption c _ _ >>= _) = _
  rw [hdecode]
  change (f.decode _ (f.encode b ++ rest) >>= _) = _
  rw [show (head ++ f.encode b).length - ((head ++ f.encode b ++ rest).length -
      (f.encode b ++ rest).length) = (f.encode b).length by
    simp only [List.length_append]
    omega, hf.decode_encode b rest (by omega)]
  rfl

/-- A field that may be missing is read back. -/
theorem Lawful.optional {c : Codec α} {f : Fields β} (hc : c.Lawful) (hne : c.NeverEmptyString)
    (hf : f.Lawful) : (f.optional c).Lawful where
  length_eq x := by
    rcases x with ⟨_ | a, b⟩ <;> simp only [Fields.optional]
    · split_ifs
      · rw [hf.length_eq, List.length_cons, Nat.add_comm]
      · exact hf.length_eq b
    · rw [List.length_append, hc.length_eq, hf.length_eq]
  encode_eq_nil x hx := by
    obtain ⟨a, b⟩ := x
    obtain ⟨ha, hb⟩ := Bool.or_eq_false_iff.1 hx
    obtain rfl : a = none := by simpa using ha
    simp only [Fields.optional] at hb ⊢
    rw [hb, if_neg Bool.false_ne_true, hf.encode_eq_nil b hb]
  decode_encode x rest hx := by
    obtain ⟨_ | a, b⟩ := x
    · by_cases hb : f.present b = true
      · have hencode : (f.optional c).encode (none, b) = [0x80] ++ f.encode b := if_pos hb
        rw [hencode] at hx ⊢
        refine decode_optional hf hx ?_
        rw [decodeOption, if_neg (by simp)]
        exact if_pos rfl
      · -- Nothing is left of the payload.
        have hencode : (f.optional c).encode (none, b) = [] ++ f.encode b := if_neg hb
        rw [hencode] at hx ⊢
        refine decode_optional hf hx ?_
        rw [hf.encode_eq_nil b (Bool.eq_false_iff.2 hb)]
        exact if_pos rfl
    · have hencode : (f.optional c).encode (some a, b) = c.encode a ++ f.encode b := rfl
      rw [hencode] at hx ⊢
      have ha : (c.encode a).length < 2 ^ 64 := by
        rw [List.length_append] at hx
        omega
      obtain ⟨_, _, htail, _⟩ := hne a ha
      refine decode_optional hf hx ?_
      rw [List.append_assoc]
      exact decodeOption_encode hc hne ha (by rw [htail]; simp) _

/-- Fields as those of another type. -/
def map (f : Fields α) (g : β → α) (h : α → β) : Fields β where
  encode x := f.encode (g x)
  length x := f.length (g x)
  present x := f.present (g x)
  decode remaining buf := do
    let (a, rest) ← f.decode remaining buf
    return (h a, rest)

/-- The fields of a record are read back. -/
theorem Lawful.map {f : Fields α} (hf : f.Lawful) {g : β → α} {h : α → β}
    (hgh : ∀ x, h (g x) = x) : (f.map g h).Lawful where
  length_eq x := hf.length_eq (g x)
  encode_eq_nil x := hf.encode_eq_nil (g x)
  decode_encode x rest hx := by
    change (f.decode (f.encode (g x)).length (f.encode (g x) ++ rest) >>= _) = _
    rw [hf.decode_encode (g x) rest hx]
    change Except.ok (h (g x), rest) = _
    rw [hgh]

end Fields

namespace Codec

variable {α : Type}

/-- A record of fields, as a list of them. -/
def record (f : Fields α) : Codec α where
  encode x := Header.encode ⟨true, f.length x⟩ ++ f.encode x
  length x := f.length x + Header.lengthOfLength (f.length x)
  decode buf := do
    let (header, buf) ← Header.decode buf
    if !header.list then .error .unexpectedString
    else if buf.length < header.payloadLength then .error .inputTooShort
    else do
      let (x, rest) ← f.decode header.payloadLength buf
      let consumed := buf.length - rest.length
      if consumed ≠ header.payloadLength then
        .error (.listLengthMismatch header.payloadLength consumed)
      else .ok (x, rest)

/-- Records are read back. -/
theorem lawful_record {f : Fields α} (hf : f.Lawful) : (record f).Lawful where
  length_eq x := by
    simp only [record]
    rw [List.length_append, Header.length_encode, hf.length_eq, Nat.add_comm]
  decode_encode x rest hx := by
    simp only [record, hf.length_eq, List.length_append, List.append_assoc] at hx ⊢
    rw [Header.decode_encode (by simp) (by simp only; omega) (by simp)]
    change (if (f.encode x ++ rest).length < (f.encode x).length then _ else
      (f.decode (f.encode x).length (f.encode x ++ rest) >>= _)) = _
    rw [if_neg (by simp), hf.decode_encode x rest (by omega)]
    exact if_neg (not_not_intro (by simp))

end Codec

end Rlp
