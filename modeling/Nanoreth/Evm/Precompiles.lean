import Nanoreth.Primitives.Block
import Nanoreth.Lib.Partial
import Nanoreth.Lib.Overwrite

/-!
# Read precompiles

Contracts read the state of HyperCore by calling *read precompiles*. A block records
the calls its transactions made, and the node replays them from there
(`runPrecompile`). A call that is not recorded runs out of gas, unless the node
forwards it to another one (`runUnrecordedPrecompile`).

Before a block is executed, its precompiles are installed
(`applyPrecompilesWithForwarder`): those left over from another block are cleared,
those of the recorded calls are installed, and, from some block on, so are all of
those with an address in a given range.

* `applyPrecompilesWithForwarder_eq`: the precompile installed at each address;
* `applyPrecompilesWithForwarder_idem`: installing the precompiles of a block twice
  is the same as installing them once.
-/

namespace Nanoreth

open Partial Overwrite

/-- What a precompile returns. -/
structure PrecompileOutput where
  gasUsed : UInt64
  bytes : Bytes
  reverted : Bool
  deriving DecidableEq

/-- Why a precompile fails. -/
inductive PrecompileError
  | outOfGas
  | fatal (message : String)
  deriving DecidableEq

/-- The result of a call to a precompile, which may also panic. -/
abbrev PrecompileResult := Except Halt (Except PrecompileError PrecompileOutput)

/-- A precompile: its result on an input and a gas limit. -/
abbrev DynPrecompile := Bytes → UInt64 → PrecompileResult

/-- The precompiles installed in an EVM, by address. -/
abbrev PrecompilesMap := Address → Option DynPrecompile

/-- What a node answers to a forwarded call: its address, input and gas limit, and
    the number of the block and the hash of the head it is made at. -/
abbrev ReadPrecompileForwarder := Address → Bytes → UInt64 → UInt64 → B256 → PrecompileResult

/-- A forwarder of the calls made at a head. -/
abbrev ScopedReadPrecompileForwarder := ReadPrecompileForwarder × B256

/-- A word as an integer of 64 bits, or the largest one if it does not fit. -/
def saturatingToU64 (n : U256) : UInt64 :=
  if n.toNat < 2 ^ 64 then UInt64.ofNat n.toNat else UInt64.ofNat (2 ^ 64 - 1)

/-- A block number of 64 bits is not changed by the conversion. -/
theorem saturatingToU64_setWidth (n : UInt64) : saturatingToU64 (n.toBitVec.setWidth 256) = n := by
  have hn : (n.toBitVec.setWidth 256).toNat = n.toNat := by
    rw [BitVec.toNat_setWidth, UInt64.toNat_toBitVec]
    exact Nat.mod_eq_of_lt (n.toNat_lt.trans (by decide))
  rw [saturatingToU64, hn, if_pos n.toNat_lt, UInt64.ofNat_toNat]

/-- The result of a call recorded in a block, if it is. -/
def runPrecompile (calls : List (ReadPrecompileInput × ReadPrecompileResult)) (data : Bytes)
    (gasLimit : UInt64) : Option PrecompileResult :=
  (lastEntry calls ⟨data, gasLimit⟩).map fun
    | .ok gasUsed bytes => .ok (.ok ⟨gasUsed, bytes, false⟩)
    | .outOfGas => .ok (.error .outOfGas)
    | .error => .ok (.error .outOfGas)
    | .unexpectedError => .error (.panic "unexpected precompile error")

/-- The result of a call that is not recorded in the block. -/
def runUnrecordedPrecompile (forwarder : Option ScopedReadPrecompileForwarder) (address : Address)
    (data : Bytes) (gasLimit blockNumber : UInt64) : PrecompileResult :=
  match forwarder with
  | some (forwarder, headHash) => forwarder address data gasLimit blockNumber headHash
  | none => .ok (.error .outOfGas)

/-- The precompile that replays the recorded calls. -/
def recordedPrecompile (forwarder : Option ScopedReadPrecompileForwarder) (blockNumber : UInt64)
    (address : Address) (calls : List (ReadPrecompileInput × ReadPrecompileResult)) :
    DynPrecompile := fun data gas =>
  (runPrecompile calls data gas).getD
    (runUnrecordedPrecompile forwarder address data gas blockNumber)

/-- The precompile without recorded calls. -/
def unrecordedPrecompile (forwarder : Option ScopedReadPrecompileForwarder) (blockNumber : UInt64)
    (address : Address) : DynPrecompile := fun data gas =>
  runUnrecordedPrecompile forwarder address data gas blockNumber

/-- The number of a precompile, which has to fit. -/
def addressToU64 (address : Address) : Except Halt UInt64 :=
  if address.toNat < 2 ^ 64 then .ok (UInt64.ofNat address.toNat)
  else .error (.panic "called `Result::unwrap()` on an `Err` value")

/-- The highest address of the read precompiles of a block. -/
def highestAddress (extras : HlExtras) : Except Halt UInt64 :=
  match extras.highestPrecompileAddress with
  | some address => addressToU64 address
  | none => .ok 0x80D

/-- The addresses from `lowest` to `highest`. -/
def addressRange (lowest highest : UInt64) : List Address :=
  (List.range' lowest.toNat (highest.toNat + 1 - lowest.toNat)).map (BitVec.ofNat 160)

/-- Installs the read precompiles up to the highest address that are not installed. -/
def fillAllPrecompiles (extras : HlExtras) (precompiles : PrecompilesMap)
    (forwarder : Option ScopedReadPrecompileForwarder) (blockNumber : UInt64) :
    Except Halt PrecompilesMap := do
  let highest ← highestAddress extras
  -- What is there already, recorded or not, is kept.
  return (addressRange 0x800 highest).foldl (fun precompiles address =>
    Function.update precompiles address
      ((precompiles address).or (some (unrecordedPrecompile forwarder blockNumber address))))
    precompiles

/-- Whether an address is of the form `0x00…08xx`. -/
def isReadPrecompileAddress (address : Address) : Bool := address >>> 8 == 8

/-- The number of the first block in which all read precompiles are installed. -/
def warmPrecompilesBlockNumber : ℕ := 8_197_684

/-- Installs the read precompiles of a block. -/
def applyPrecompilesWithForwarder (blockNumber : U256) (extras : HlExtras)
    (forwarder : Option ScopedReadPrecompileForwarder) (precompiles : PrecompilesMap) :
    Except Halt PrecompilesMap :=
  -- Precompiles that were left by the last block are removed first.
  let cleared : PrecompilesMap := fun address =>
    if isReadPrecompileAddress address then none else precompiles address
  let recorded := (extras.readPrecompileCalls.getD []).foldl
    (fun (precompiles : PrecompilesMap) entry =>
      Function.update precompiles entry.1
        (some (recordedPrecompile forwarder (saturatingToU64 blockNumber) entry.1 entry.2)))
    cleared
  if warmPrecompilesBlockNumber ≤ blockNumber.toNat then
    fillAllPrecompiles extras recorded forwarder (saturatingToU64 blockNumber)
  else .ok recorded

/-- The precompiles of a block, without a forwarder. -/
def applyPrecompiles (blockNumber : U256) (extras : HlExtras) (precompiles : PrecompilesMap) :
    Except Halt PrecompilesMap :=
  applyPrecompilesWithForwarder blockNumber extras none precompiles

/-! ## The installed precompiles -/

/-- The highest address at which a precompile is installed in any case, if the block
    is one in which there are such. -/
def warmHighest (blockNumber : U256) (extras : HlExtras) : Except Halt (Option UInt64) :=
  if warmPrecompilesBlockNumber ≤ blockNumber.toNat then some <$> highestAddress extras
  else .ok none

/-- The precompile installed at an address: the one of its recorded calls, or else the
    one that was there if it is not a read precompile, or else one without recorded
    calls if it is in the range. -/
def installed (blockNumber : U256) (extras : HlExtras)
    (forwarder : Option ScopedReadPrecompileForwarder) (precompiles : PrecompilesMap)
    (highest : Option UInt64) (address : Address) : Option DynPrecompile :=
  (((lastEntry (extras.readPrecompileCalls.getD []) address).map
      (recordedPrecompile forwarder (saturatingToU64 blockNumber) address)).or
    (if isReadPrecompileAddress address then none else precompiles address)).or
    (if ∃ h ∈ highest, address ∈ addressRange 0x800 h then
      some (unrecordedPrecompile forwarder (saturatingToU64 blockNumber) address) else none)

/-- The precompiles installed at all addresses. -/
theorem applyPrecompilesWithForwarder_eq (blockNumber : U256) (extras : HlExtras)
    (forwarder : Option ScopedReadPrecompileForwarder) (precompiles : PrecompilesMap) :
    applyPrecompilesWithForwarder blockNumber extras forwarder precompiles =
      installed blockNumber extras forwarder precompiles <$> warmHighest blockNumber extras := by
  unfold applyPrecompilesWithForwarder warmHighest
  split_ifs with hwarm
  · unfold fillAllPrecompiles
    cases highestAddress extras with
    | error e => rfl
    | ok highest =>
      refine congrArg Except.ok (funext fun address => ?_)
      rw [foldl_fill_eq, foldl_update_eq, installed]
      by_cases h : address ∈ addressRange 0x800 highest <;> simp [h]
  · refine congrArg Except.ok (funext fun address => ?_)
    rw [foldl_update_eq, installed]
    simp

/-- Installing the precompiles a second time changes nothing. -/
theorem installed_installed (blockNumber : U256) (extras : HlExtras)
    (forwarder : Option ScopedReadPrecompileForwarder) (precompiles : PrecompilesMap)
    (highest : Option UInt64) :
    installed blockNumber extras forwarder
      (installed blockNumber extras forwarder precompiles highest) highest =
        installed blockNumber extras forwarder precompiles highest := by
  funext address
  unfold installed
  cases lastEntry (extras.readPrecompileCalls.getD []) address with
  | some calls => simp
  | none =>
    -- Nothing is recorded: a read precompile is cleared in both, and any other one is
    -- left in place by the second installation.
    cases isReadPrecompileAddress address with
    | true => simp
    | false => cases precompiles address <;> simp

/-- Installing the precompiles of a block again changes nothing. -/
theorem applyPrecompilesWithForwarder_idem {blockNumber : U256} {extras : HlExtras}
    {forwarder : Option ScopedReadPrecompileForwarder} {precompiles precompiles' : PrecompilesMap}
    (h : applyPrecompilesWithForwarder blockNumber extras forwarder precompiles =
      .ok precompiles') :
    applyPrecompilesWithForwarder blockNumber extras forwarder precompiles' = .ok precompiles' := by
  rw [applyPrecompilesWithForwarder_eq] at h ⊢
  cases hhighest : warmHighest blockNumber extras with
  | error e => rw [hhighest] at h; cases h
  | ok highest =>
    rw [hhighest] at h
    cases h
    exact congrArg Except.ok (installed_installed _ _ _ _ _)

end Nanoreth
