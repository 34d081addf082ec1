import Nanoreth.Lib.Rlp
import Nanoreth.Primitives.Block

/-!
# Wire encoding

How blocks are sent to peers (`primitives/rlp.rs`, the module `rlp` of `network/mod.rs`, and
the codec of `ReadPrecompileCalls` in `types/mod.rs`). Bodies, blocks and announcements of
new blocks are records whose last fields may be missing: withdrawals, sidecars, the calls
to read precompiles and the highest precompile. Calls are sent as the string of their
MessagePack encoding.

An announcement is laid out differently from the block it has: the sidecars and the precompile
data follow the total difficulty, outside of the record of the block.

The codecs of headers, transactions, withdrawals, sidecars and of single calls are those of
dependencies, and are parameters of the model, `WireCodecs`.
-/

namespace Nanoreth

open Rlp (Codec Fields)

/-- A call to a read precompile, with the address of the precompile. -/
abbrev ReadPrecompileCall := Address × List (ReadPrecompileInput × ReadPrecompileResult)

/-- The marker of an array of `len` elements in MessagePack. -/
def writeArrayLen (len : ℕ) : Bytes :=
  let len := len % 2 ^ 32
  if len < 16 then [UInt8.ofNat (0x90 + len)]
  else if len < 2 ^ 16 then 0xdc :: Codec.fixedBytes 2 len
  else 0xdd :: Codec.fixedBytes 4 len

/-- The MessagePack encoding of calls, given that of each. -/
def toVec (encodeCall : ReadPrecompileCall → Bytes) (calls : ReadPrecompileCalls) : Bytes :=
  writeArrayLen calls.length ++ calls.flatMap encodeCall

/-- The codecs of the parts of a block, which all round-trip. -/
structure WireCodecs where
  header : Codec HlHeader
  transaction : Codec TransactionSigned
  withdrawal : Codec Withdrawal
  sidecar : Codec BlobTransactionSidecar
  /-- The MessagePack encoding of a call. -/
  encodeCall : ReadPrecompileCall → Bytes
  /-- Decodes the MessagePack encoding of calls. -/
  fromSlice : Bytes → Option ReadPrecompileCalls
  roundTrips_header : header.RoundTrips
  roundTrips_transaction : transaction.RoundTrips
  roundTrips_withdrawal : withdrawal.RoundTrips
  roundTrips_sidecar : sidecar.RoundTrips
  fromSlice_toVec : ∀ calls, (toVec encodeCall calls).length < 2 ^ 64 →
    fromSlice (toVec encodeCall calls) = some calls

/-- The fields of a body, as they are sent. -/
structure BlockBodyHelper where
  transactions : List TransactionSigned
  ommers : List HlHeader
  withdrawals : Option (List Withdrawal)
  sidecars : Option (List BlobTransactionSidecar)
  readPrecompileCalls : Option ReadPrecompileCalls
  highestPrecompileAddress : Option Address

/-- The fields of a block, as they are sent. -/
structure BlockHelper where
  header : HlHeader
  transactions : List TransactionSigned
  ommers : List HlHeader
  withdrawals : Option (List Withdrawal)
  sidecars : Option (List BlobTransactionSidecar)
  readPrecompileCalls : Option ReadPrecompileCalls
  highestPrecompileAddress : Option Address

/-- The announcement of a block, with its total difficulty. -/
structure HlNewBlock where
  block : HlBlock
  td : U128
  deriving DecidableEq

/-- The fields of the block of an announcement, as they are sent. -/
structure NewBlockHelper where
  header : HlHeader
  transactions : List TransactionSigned
  ommers : List HlHeader
  withdrawals : Option (List Withdrawal)

/-- The fields of an announcement, as they are sent. -/
structure HlNewBlockHelper where
  block : NewBlockHelper
  td : U128
  sidecars : Option (List BlobTransactionSidecar)
  readPrecompileCalls : Option ReadPrecompileCalls
  highestPrecompileAddress : Option Address

/-- The fields of a body, in the order of the encoding. -/
def HlBlockBody.toHelper (body : HlBlockBody) : BlockBodyHelper where
  transactions := body.inner.transactions
  ommers := body.inner.ommers
  withdrawals := body.inner.withdrawals
  sidecars := body.sidecars
  readPrecompileCalls := body.readPrecompileCalls
  highestPrecompileAddress := body.highestPrecompileAddress

/-- The body of these fields. -/
def BlockBodyHelper.toBody (helper : BlockBodyHelper) : HlBlockBody where
  inner :=
    { transactions := helper.transactions
      ommers := helper.ommers
      withdrawals := helper.withdrawals }
  sidecars := helper.sidecars
  readPrecompileCalls := helper.readPrecompileCalls
  highestPrecompileAddress := helper.highestPrecompileAddress

/-- The fields of a block, in the order of the encoding. -/
def HlBlock.toHelper (block : HlBlock) : BlockHelper where
  header := block.header
  transactions := block.body.inner.transactions
  ommers := block.body.inner.ommers
  withdrawals := block.body.inner.withdrawals
  sidecars := block.body.sidecars
  readPrecompileCalls := block.body.readPrecompileCalls
  highestPrecompileAddress := block.body.highestPrecompileAddress

/-- The block of these fields. -/
def BlockHelper.toBlock (helper : BlockHelper) : HlBlock where
  header := helper.header
  body :=
    { inner :=
        { transactions := helper.transactions
          ommers := helper.ommers
          withdrawals := helper.withdrawals }
      sidecars := helper.sidecars
      readPrecompileCalls := helper.readPrecompileCalls
      highestPrecompileAddress := helper.highestPrecompileAddress }

/-- The fields of an announcement, in the order of the encoding. -/
def HlNewBlock.toHelper (value : HlNewBlock) : HlNewBlockHelper where
  block :=
    { header := value.block.header
      transactions := value.block.body.inner.transactions
      ommers := value.block.body.inner.ommers
      withdrawals := value.block.body.inner.withdrawals }
  td := value.td
  sidecars := value.block.body.sidecars
  readPrecompileCalls := value.block.body.readPrecompileCalls
  highestPrecompileAddress := value.block.body.highestPrecompileAddress

/-- The announcement of these fields. -/
def HlNewBlockHelper.toNewBlock (helper : HlNewBlockHelper) : HlNewBlock where
  block :=
    { header := helper.block.header
      body :=
        { inner :=
            { transactions := helper.block.transactions
              ommers := helper.block.ommers
              withdrawals := helper.block.withdrawals }
          sidecars := helper.sidecars
          readPrecompileCalls := helper.readPrecompileCalls
          highestPrecompileAddress := helper.highestPrecompileAddress } }
  td := helper.td

namespace WireCodecs

variable (W : WireCodecs)

/-! ## Codecs -/

/-- Calls are sent as a string. Their length is that of the string they are encoded to. -/
def readPrecompileCalls : Codec ReadPrecompileCalls where
  encode calls := Codec.string.encode (toVec W.encodeCall calls)
  length calls := (Codec.string.encode (toVec W.encodeCall calls)).length
  decode buf := do
    let (bytes, rest) ← Codec.string.decode buf
    -- Recorded calls are bytes of another format inside the text of bytes.
    match W.fromSlice bytes with
    | some calls => .ok (calls, rest)
    | none => .error (.custom "Failed to decode ReadPrecompileCalls")

/-- Addresses have 20 bytes. -/
def address : Codec Address := Codec.fixed 20

/-- The optional fields a body and an announcement end with. -/
def hlFields : Fields (Option (List BlobTransactionSidecar) ×
    Option ReadPrecompileCalls × Option Address × Unit) :=
  Fields.optional W.sidecar.list <| Fields.optional W.readPrecompileCalls <|
    Fields.optional address Fields.nil

/-- A list of the fields of a body, the last ones of which may be missing. -/
def blockBodyHelper : Codec BlockBodyHelper :=
  Codec.record <|
    (Fields.required W.transaction.list <| Fields.required W.header.list <|
      Fields.optional W.withdrawal.list W.hlFields).map
    (fun helper => (helper.transactions, helper.ommers, helper.withdrawals, helper.sidecars,
      helper.readPrecompileCalls, helper.highestPrecompileAddress, ()))
    (fun (transactions, ommers, withdrawals, sidecars, calls, highest, _) =>
      ⟨transactions, ommers, withdrawals, sidecars, calls, highest⟩)

/-- A list of the fields of a block. -/
def blockHelper : Codec BlockHelper :=
  Codec.record <|
    (Fields.required W.header <| Fields.required W.transaction.list <|
      Fields.required W.header.list <| Fields.optional W.withdrawal.list W.hlFields).map
    (fun helper => (helper.header, helper.transactions, helper.ommers, helper.withdrawals,
      helper.sidecars, helper.readPrecompileCalls, helper.highestPrecompileAddress, ()))
    (fun (header, transactions, ommers, withdrawals, sidecars, calls, highest, _) =>
      ⟨header, transactions, ommers, withdrawals, sidecars, calls, highest⟩)

/-- A list of the fields of the Ethereum block of an announcement. -/
def newBlockHelper : Codec NewBlockHelper :=
  Codec.record <|
    (Fields.required W.header <| Fields.required W.transaction.list <|
      Fields.required W.header.list <| Fields.optional W.withdrawal.list Fields.nil).map
    (fun helper => (helper.header, helper.transactions, helper.ommers, helper.withdrawals, ()))
    (fun (header, transactions, ommers, withdrawals, _) =>
      ⟨header, transactions, ommers, withdrawals⟩)

/-- A list of the fields of an announcement. -/
def hlNewBlockHelper : Codec HlNewBlockHelper :=
  Codec.record <|
    (Fields.required W.newBlockHelper <| Fields.required (Codec.uint 128) W.hlFields).map
    (fun helper => (helper.block, helper.td, helper.sidecars, helper.readPrecompileCalls,
      helper.highestPrecompileAddress, ()))
    (fun (block, td, sidecars, calls, highest, _) => ⟨block, td, sidecars, calls, highest⟩)

/-- The encoding of bodies. -/
def hlBlockBody : Codec HlBlockBody :=
  W.blockBodyHelper.convert HlBlockBody.toHelper fun helper => .ok helper.toBody

/-- The encoding of blocks. -/
def hlBlock : Codec HlBlock :=
  W.blockHelper.convert HlBlock.toHelper fun helper => .ok helper.toBlock

/-- The encoding of announcements. -/
def hlNewBlock : Codec HlNewBlock :=
  W.hlNewBlockHelper.convert HlNewBlock.toHelper fun helper => .ok helper.toNewBlock

/-- The length of the encoding of a block, from its parts. -/
def rlpLength (header : HlHeader) (body : HlBlockBody) : ℕ :=
  W.blockHelper.length
    { header := header
      transactions := body.inner.transactions
      ommers := body.inner.ommers
      withdrawals := body.inner.withdrawals
      sidecars := body.sidecars
      readPrecompileCalls := body.readPrecompileCalls
      highestPrecompileAddress := body.highestPrecompileAddress }

/-! ## Round trips -/

/-- An encoding is not empty. -/
theorem toVec_ne_nil (encodeCall : ReadPrecompileCall → Bytes) (calls : ReadPrecompileCalls) :
    toVec encodeCall calls ≠ [] := by
  refine List.append_ne_nil_of_left_ne_nil ?_ _
  rw [writeArrayLen]
  split_ifs <;> exact List.cons_ne_nil _ _

/-- The encoding of bytes is not shorter than they are. -/
theorem length_le_string (bytes : Bytes) : bytes.length ≤ (Codec.string.encode bytes).length := by
  simp only [Codec.string]
  split_ifs
  · rw [List.length_append]
    exact Nat.le_add_left _ _
  · exact le_rfl

/-- Recorded calls are read back. -/
theorem lawful_readPrecompileCalls : W.readPrecompileCalls.Lawful where
  length_eq _ := rfl
  decode_encode calls rest hcalls := by
    change (Codec.string.decode (Codec.string.encode (toVec W.encodeCall calls) ++ rest) >>= _) = _
    rw [Codec.lawful_string.decode_encode _ rest hcalls]
    change (match W.fromSlice (toVec W.encodeCall calls) with
      | some calls => Except.ok (calls, rest)
      | none => _) = _
    rw [W.fromSlice_toVec calls ((length_le_string _).trans_lt hcalls)]

/-- The string of calls is never empty, as it starts with the marker of an array. -/
theorem neverEmptyString_readPrecompileCalls : W.readPrecompileCalls.NeverEmptyString :=
  fun calls hcalls => Codec.head_encode_string (toVec_ne_nil _ calls) hcalls

instance : Nontrivial HlHeader :=
  ⟨⟨default, 0, 0⟩, ⟨default, 0, 1⟩, fun h =>
    Nat.zero_ne_one (congrArg (·.extras.systemTxCount) h)⟩

instance : Nontrivial TransactionSigned :=
  let tx (yParity : Bool) : TransactionSigned :=
    ⟨.legacy ⟨⟨none, 0, 0, 0, .create, 0, []⟩, ⟨0, 0, yParity⟩⟩⟩
  ⟨tx false, tx true, by decide⟩

instance : Nontrivial Withdrawal :=
  ⟨⟨0, 0, 0, 0⟩, ⟨0, 0, 0, 1⟩, by decide⟩

instance : Nontrivial BlobTransactionSidecar :=
  ⟨⟨[], [], []⟩, ⟨[], [], [[]]⟩, by decide⟩

theorem lawful_headers : W.header.list.Lawful :=
  W.roundTrips_header.lawful.list W.roundTrips_header.encode_ne_nil

theorem lawful_transactions : W.transaction.list.Lawful :=
  W.roundTrips_transaction.lawful.list W.roundTrips_transaction.encode_ne_nil

theorem lawful_optional_withdrawals {β : Type} {f : Fields β} (hf : f.Lawful) :
    (Fields.optional W.withdrawal.list f).Lawful :=
  .optional (W.roundTrips_withdrawal.lawful.list W.roundTrips_withdrawal.encode_ne_nil)
    W.roundTrips_withdrawal.lawful.neverEmptyString_list hf

/-- No part of the precompile data starts with the byte that stands for a missing field. -/
theorem lawful_hlFields : W.hlFields.Lawful :=
  .optional (W.roundTrips_sidecar.lawful.list W.roundTrips_sidecar.encode_ne_nil)
    W.roundTrips_sidecar.lawful.neverEmptyString_list <|
  .optional W.lawful_readPrecompileCalls W.neverEmptyString_readPrecompileCalls <|
  .optional (Codec.lawful_fixed 20) (Codec.neverEmptyString_fixed (by decide)) Fields.lawful_nil

/-- Bodies are read back. -/
theorem lawful_hlBlockBody : W.hlBlockBody.Lawful := by
  have hfields := Fields.Lawful.required W.lawful_transactions <|
    .required W.lawful_headers <| W.lawful_optional_withdrawals W.lawful_hlFields
  have hhelper : W.blockBodyHelper.Lawful := Codec.lawful_record (hfields.map fun _ => rfl)
  exact hhelper.convert fun _ _ => rfl

/-- The fields of a block are read back. -/
theorem lawful_blockHelper : W.blockHelper.Lawful := by
  have hfields := Fields.Lawful.required W.roundTrips_header.lawful <|
    .required W.lawful_transactions <| .required W.lawful_headers <|
    W.lawful_optional_withdrawals W.lawful_hlFields
  exact Codec.lawful_record (hfields.map fun _ => rfl)

theorem lawful_hlBlock : W.hlBlock.Lawful :=
  W.lawful_blockHelper.convert fun _ _ => rfl

/-- The fields of an announced block are read back. -/
theorem lawful_newBlockHelper : W.newBlockHelper.Lawful := by
  have hfields := Fields.Lawful.required W.roundTrips_header.lawful <|
    .required W.lawful_transactions <| .required W.lawful_headers <|
    W.lawful_optional_withdrawals Fields.lawful_nil
  exact Codec.lawful_record (hfields.map fun _ => rfl)

/-- Announced blocks are read back. -/
theorem lawful_hlNewBlock : W.hlNewBlock.Lawful := by
  have hfields := Fields.Lawful.required W.lawful_newBlockHelper <|
    .required (Codec.lawful_uint 128) W.lawful_hlFields
  have hhelper : W.hlNewBlockHelper.Lawful := Codec.lawful_record (hfields.map fun _ => rfl)
  exact hhelper.convert fun _ _ => rfl

/-- Bodies, blocks and announcements are decoded from their encodings, whichever of their
    optional parts are present, and the lengths of encodings are computed right. -/
theorem wire_lawful :
    W.hlBlockBody.Lawful ∧ W.hlBlock.Lawful ∧ W.hlNewBlock.Lawful ∧
      ∀ header body, W.rlpLength header body = (W.hlBlock.encode ⟨header, body⟩).length :=
  ⟨W.lawful_hlBlockBody, W.lawful_hlBlock, W.lawful_hlNewBlock,
    fun header body => W.lawful_blockHelper.length_eq (HlBlock.toHelper ⟨header, body⟩)⟩

end WireCodecs

/-! ## Codecs of the parts

There are codecs as those of the dependencies are assumed to be. -/

/-- The number of bytes that follow the marker of an array and give its length. -/
def lengthBytes (marker : UInt8) : ℕ :=
  if marker = 0xdc then 2 else if marker = 0xdd then 4 else 0

/-- The first byte of a length tells how many more there are. -/
theorem writeArrayLen_eq_cons (len : ℕ) :
    ∃ marker bytes, writeArrayLen len = marker :: bytes ∧ bytes.length = lengthBytes marker := by
  have hlt := Nat.mod_lt len (show 0 < 2 ^ 32 by decide)
  simp only [writeArrayLen]
  split_ifs with hfix h16
  · refine ⟨_, [], rfl, ?_⟩
    generalize len % 2 ^ 32 = n at hfix
    interval_cases n <;> rfl
  · exact ⟨_, _, rfl, Codec.length_fixedBytes (by simpa using h16)⟩
  · exact ⟨_, _, rfl, Codec.length_fixedBytes (by simpa using hlt)⟩

/-- Reads an array of calls back, whatever it says of their number. -/
def fromArray (call : Codec ReadPrecompileCall) : Bytes → Option ReadPrecompileCalls
  | [] => none
  | marker :: bytes => (call.decodeAll bytes.length (bytes.drop (lengthBytes marker))).toOption

/-- Recorded calls are read back from their bytes. -/
theorem fromArray_toVec {call : Codec ReadPrecompileCall} (h : call.RoundTrips)
    (calls : ReadPrecompileCalls) (hcalls : (toVec call.encode calls).length < 2 ^ 64) :
    fromArray call (toVec call.encode calls) = some calls := by
  have : Nontrivial ReadPrecompileCall := ⟨(0, []), (1, []), by decide⟩
  obtain ⟨marker, bytes, hmarker, hbytes⟩ := writeArrayLen_eq_cons calls.length
  rw [toVec, List.length_append] at hcalls
  have hdecode : call.decodeAll (bytes ++ calls.flatMap call.encode).length
      (calls.flatMap call.encode) = .ok calls := by
    refine h.lawful.decodeAll_flatMap h.encode_ne_nil (by omega) ?_
    rw [List.length_append]
    exact (Codec.length_le_flatMap h.encode_ne_nil calls).trans (Nat.le_add_left _ _)
  rw [toVec, hmarker, List.cons_append, fromArray, ← hbytes, List.drop_left, hdecode]
  rfl

/-- There are such codecs. -/
theorem nonempty_wireCodecs : Nonempty WireCodecs := by
  obtain ⟨header, hheader⟩ := Codec.exists_roundTrips HlHeader
  obtain ⟨transaction, htransaction⟩ := Codec.exists_roundTrips TransactionSigned
  obtain ⟨withdrawal, hwithdrawal⟩ := Codec.exists_roundTrips Withdrawal
  obtain ⟨sidecar, hsidecar⟩ := Codec.exists_roundTrips BlobTransactionSidecar
  obtain ⟨call, hcall⟩ := Codec.exists_roundTrips ReadPrecompileCall
  exact ⟨⟨header, transaction, withdrawal, sidecar, call.encode, fromArray call, hheader,
    htransaction, hwithdrawal, hsidecar, fromArray_toVec hcall⟩⟩

/-- A body without withdrawals whose sidecars are there, but none of them. -/
def emptySidecars : HlBlockBody where
  inner := ⟨[], [], none⟩
  sidecars := some []
  readPrecompileCalls := none
  highestPrecompileAddress := none

/-- The missing withdrawals are written, as sidecars follow; the missing precompile data is
    not. -/
theorem decode_emptySidecars :
    ∃ W : WireCodecs, W.hlBlockBody.encode emptySidecars = [0xc4, 0xc0, 0xc0, 0x80, 0xc0] ∧
      ∀ rest, W.hlBlockBody.decode ([0xc4, 0xc0, 0xc0, 0x80, 0xc0] ++ rest) =
        .ok (emptySidecars, rest) := by
  obtain ⟨W⟩ := nonempty_wireCodecs
  have hencode : W.hlBlockBody.encode emptySidecars = [0xc4, 0xc0, 0xc0, 0x80, 0xc0] := rfl
  refine ⟨W, hencode, fun rest => ?_⟩
  rw [← hencode]
  exact W.wire_lawful.1.decode_encode emptySidecars rest (by rw [hencode]; decide)

end Nanoreth
