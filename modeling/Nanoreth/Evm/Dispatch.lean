import Nanoreth.Evm.Precompiles

/-!
# Calls to read precompiles

What a call to each address does once the precompiles of a block are installed
(`Dispatches`): the recorded addresses replay what is recorded, the other ones in the range
of the block answer as unrecorded calls, what is left of the addresses `0x08xx` is cleared,
and nothing else changes. Installing the precompiles again does not change any answer
(`applyPrecompilesWithForwarder_dispatches`).
-/

namespace Nanoreth

open Partial Overwrite

/-! ## Addresses -/

/-- The addresses of read precompiles. -/
def IsReadAddress (address : Address) : Prop :=
  0x800 ≤ address.toNat ∧ address.toNat ≤ 0x8ff

/-- The check for an address of a read precompile is right. -/
theorem isReadPrecompileAddress_iff (address : Address) :
    isReadPrecompileAddress address = true ↔ IsReadAddress address := by
  rw [isReadPrecompileAddress, beq_iff_eq, ← BitVec.toNat_inj, BitVec.toNat_ushiftRight,
    Nat.shiftRight_eq_div_pow, IsReadAddress]
  change address.toNat / 256 = 8 ↔ _
  omega

/-- The addresses of a range are those from the lowest to the highest. -/
theorem mem_addressRange (lowest highest : UInt64) (address : Address) :
    address ∈ addressRange lowest highest ↔
      lowest.toNat ≤ address.toNat ∧ address.toNat ≤ highest.toNat := by
  simp only [addressRange, List.mem_map, List.mem_range'_1]
  constructor
  · rintro ⟨n, ⟨hlow, hhigh⟩, rfl⟩
    have hn : n < 2 ^ 160 := by
      have := highest.toNat_lt
      omega
    rw [BitVec.toNat_ofNat, Nat.mod_eq_of_lt hn]
    omega
  · rintro ⟨hlow, hhigh⟩
    exact ⟨address.toNat, ⟨hlow, by omega⟩, by rw [BitVec.ofNat_toNat, BitVec.setWidth_eq]⟩

/-! ## Answers -/

/-- The answer to a call with a recorded result. -/
def replayed : ReadPrecompileResult → PrecompileResult
  | .ok gasUsed bytes => .ok (.ok ⟨gasUsed, bytes, false⟩)
  | .outOfGas => .ok (.error .outOfGas)
  | .error => .ok (.error .outOfGas)
  | .unexpectedError => .error (.panic "unexpected precompile error")

/-- The answer to a call that is not recorded: the one of the forwarder, if there is one. -/
def unrecorded (blockNumber : U256) (forwarder : Option ScopedReadPrecompileForwarder)
    (address : Address) (data : Bytes) (gas : UInt64) : PrecompileResult :=
  match forwarder with
  | some (forwarder, headHash) =>
    forwarder address data gas (saturatingToU64 blockNumber) headHash
  | none => .ok (.error .outOfGas)

/-- The addresses at which there is a precompile in any case: those up to the highest one of
    the block, from block 8197684 on. -/
def InRange (blockNumber : U256) (extras : HlExtras) (address : Address) : Prop :=
  8197684 ≤ blockNumber.toNat ∧ 0x800 ≤ address.toNat ∧
    address.toNat ≤ (extras.highestPrecompileAddress.getD 0x80D).toNat

/-- The calls recorded in a block, by address. -/
def HlExtras.recorded (extras : HlExtras) : ReadPrecompileCalls :=
  extras.readPrecompileCalls.getD []

/-- What calls do after the precompiles of a block were installed over `precompiles`. -/
structure Dispatches (blockNumber : U256) (extras : HlExtras)
    (forwarder : Option ScopedReadPrecompileForwarder) (precompiles installed : PrecompilesMap) :
    Prop where
  /-- A recorded address returns the last result recorded for the input and the gas limit. -/
  replays : ∀ address calls, (address, calls) ∈ extras.recorded →
    ∃ precompile, installed address = some precompile ∧ ∀ data gas before result after,
      calls = before ++ (⟨data, gas⟩, result) :: after → (∀ call ∈ after, call.1 ≠ ⟨data, gas⟩) →
        precompile data gas = replayed result
  /-- It answers an input that is not recorded as an unrecorded call. -/
  forwards : ∀ address calls, (address, calls) ∈ extras.recorded →
    ∃ precompile, installed address = some precompile ∧ ∀ data gas,
      (∀ call ∈ calls, call.1 ≠ ⟨data, gas⟩) →
        precompile data gas = unrecorded blockNumber forwarder address data gas
  /-- So does every other address of the range, unless there was another precompile. -/
  filled : ∀ address ∉ extras.recorded.map (·.1), InRange blockNumber extras address →
    (IsReadAddress address ∨ precompiles address = none) →
      ∃ precompile, installed address = some precompile ∧ ∀ data gas,
        precompile data gas = unrecorded blockNumber forwarder address data gas
  kept : ∀ address ∉ extras.recorded.map (·.1), InRange blockNumber extras address →
    ¬IsReadAddress address → ∀ precompile,
      precompiles address = some precompile → installed address = some precompile
  cleared : ∀ address ∉ extras.recorded.map (·.1), ¬InRange blockNumber extras address →
    IsReadAddress address → installed address = none
  unchanged : ∀ address ∉ extras.recorded.map (·.1), ¬InRange blockNumber extras address →
    ¬IsReadAddress address → installed address = precompiles address

variable {blockNumber : U256} {extras : HlExtras}
  {forwarder : Option ScopedReadPrecompileForwarder} {precompiles : PrecompilesMap}
  {highest : Option UInt64} {address : Address}

/-- Without a recorded call, the precompile forwards or fails, by the block number. -/
theorem unrecordedPrecompile_eq (data : Bytes) (gas : UInt64) :
    unrecordedPrecompile forwarder (saturatingToU64 blockNumber) address data gas =
      unrecorded blockNumber forwarder address data gas := by
  cases forwarder <;> rfl

section Recorded

variable {calls : List (ReadPrecompileInput × ReadPrecompileResult)}

/-- Of recorded calls with the same input, the last one is replayed. -/
theorem recordedPrecompile_of_split
    {before after : List (ReadPrecompileInput × ReadPrecompileResult)} {data : Bytes}
    {gas number : UInt64} {result : ReadPrecompileResult}
    (hcalls : calls = before ++ (⟨data, gas⟩, result) :: after)
    (hafter : ∀ call ∈ after, call.1 ≠ ⟨data, gas⟩) :
    recordedPrecompile forwarder number address calls data gas = replayed result := by
  rw [recordedPrecompile, runPrecompile, hcalls, lastEntry_split hafter]
  cases result <;> rfl

/-- A call that was not recorded is answered as without records. -/
theorem recordedPrecompile_of_notMem {data : Bytes} {gas : UInt64}
    (h : ∀ call ∈ calls, call.1 ≠ ⟨data, gas⟩) :
    recordedPrecompile forwarder (saturatingToU64 blockNumber) address calls data gas =
      unrecorded blockNumber forwarder address data gas := by
  rw [recordedPrecompile, runPrecompile, lastEntry_eq_none h, ← unrecordedPrecompile_eq]
  rfl

end Recorded

/-! ## What is installed -/

/-- At an address with recorded calls, they are replayed. -/
theorem installed_of_mem (hnodup : (extras.recorded.map (·.1)).Nodup)
    {calls : List (ReadPrecompileInput × ReadPrecompileResult)}
    (h : (address, calls) ∈ extras.recorded) :
    installed blockNumber extras forwarder precompiles highest address =
      some (recordedPrecompile forwarder (saturatingToU64 blockNumber) address calls) := by
  have hlast : lastEntry (extras.readPrecompileCalls.getD []) address = some calls :=
    lastEntry_of_mem hnodup h
  rw [installed, hlast]
  rfl

/-- At other addresses, read precompiles are removed, and those in the range are installed again
    without records. -/
theorem installed_of_notMem (h : address ∉ extras.recorded.map (·.1)) :
    installed blockNumber extras forwarder precompiles highest address =
      (if isReadPrecompileAddress address then none else precompiles address).or
        (if ∃ h ∈ highest, address ∈ addressRange 0x800 h then
          some (unrecordedPrecompile forwarder (saturatingToU64 blockNumber) address)
        else none) := by
  have hlast : lastEntry (extras.readPrecompileCalls.getD []) address = none :=
    lastEntry_eq_none fun entry hentry heq => h (List.mem_map.2 ⟨entry, hentry, heq⟩)
  rw [installed, hlast]
  rfl

/-- If the highest address fits, the installation does not panic, and the range is the one of
    the block. -/
theorem warmHighest_eq_ok (blockNumber : U256)
    (hfits : ∀ a ∈ extras.highestPrecompileAddress, a.toNat < 2 ^ 64) :
    ∃ highest, warmHighest blockNumber extras = .ok highest ∧ ∀ address,
      (∃ h ∈ highest, address ∈ addressRange 0x800 h) ↔ InRange blockNumber extras address := by
  unfold warmHighest
  split_ifs with hwarm
  · -- The highest address as an integer, and as an address.
    obtain ⟨highest, hok, hhighest⟩ : ∃ highest, highestAddress extras = .ok highest ∧
        highest.toNat = (extras.highestPrecompileAddress.getD 0x80D).toNat := by
      unfold highestAddress
      cases h : extras.highestPrecompileAddress with
      | none => exact ⟨0x80D, rfl, rfl⟩
      | some a =>
        have ha := hfits a h
        exact ⟨UInt64.ofNat a.toNat, if_pos ha, UInt64.toNat_ofNat_of_lt' ha⟩
    refine ⟨some highest, by rw [hok]; rfl, fun address => ?_⟩
    simp only [Option.mem_def, Option.some.injEq, exists_eq_left', mem_addressRange, hhighest]
    exact (and_iff_right hwarm).symm
  · refine ⟨none, rfl, fun address => ?_⟩
    simp only [Option.mem_def, reduceCtorEq, false_and, exists_false, false_iff]
    exact fun h => hwarm h.1

/-- **Dispatch**: after the precompiles of a block were installed, a call to a recorded address
    is answered from the record, and the other addresses are filled, kept, cleared or left
    alone by their range. Installing them again changes nothing. -/
theorem applyPrecompilesWithForwarder_dispatches (blockNumber : U256) (extras : HlExtras)
    (forwarder : Option ScopedReadPrecompileForwarder) (precompiles : PrecompilesMap)
    (hnodup : (extras.recorded.map (·.1)).Nodup)
    (hfits : ∀ a ∈ extras.highestPrecompileAddress, a.toNat < 2 ^ 64) :
    ∃ installed,
      applyPrecompilesWithForwarder blockNumber extras forwarder precompiles = .ok installed ∧
      Dispatches blockNumber extras forwarder precompiles installed ∧
      applyPrecompilesWithForwarder blockNumber extras forwarder installed = .ok installed := by
  obtain ⟨highest, hhighest, hrange⟩ := warmHighest_eq_ok blockNumber hfits
  -- The loops have the effect of a single function of the address, so each case reads it there.
  have happly : applyPrecompilesWithForwarder blockNumber extras forwarder precompiles =
      .ok (installed blockNumber extras forwarder precompiles highest) := by
    rw [applyPrecompilesWithForwarder_eq, hhighest]
    rfl
  refine ⟨_, happly, ?_, applyPrecompilesWithForwarder_idem happly⟩
  constructor
  case replays =>
    intro address calls hmem
    exact ⟨_, installed_of_mem hnodup hmem, fun _ _ _ _ _ => recordedPrecompile_of_split⟩
  case forwards =>
    intro address calls hmem
    exact ⟨_, installed_of_mem hnodup hmem, fun _ _ => recordedPrecompile_of_notMem⟩
  case filled =>
    intro address hmem hin hfree
    refine ⟨_, ?_, unrecordedPrecompile_eq⟩
    rw [installed_of_notMem hmem, if_pos ((hrange address).2 hin)]
    -- The entry is free either because it was cleared before, or because there was none.
    rcases hfree with hread | hnone
    · rw [if_pos ((isReadPrecompileAddress_iff address).2 hread)]
      rfl
    · rw [hnone, ite_self]
      rfl
  case kept =>
    intro address hmem _ hread precompile hsome
    rw [installed_of_notMem hmem, if_neg (mt (isReadPrecompileAddress_iff address).1 hread), hsome]
    rfl
  case cleared =>
    intro address hmem hin hread
    rw [installed_of_notMem hmem, if_pos ((isReadPrecompileAddress_iff address).2 hread),
      if_neg (mt (hrange address).1 hin)]
    rfl
  case unchanged =>
    intro address hmem hin hread
    rw [installed_of_notMem hmem, if_neg (mt (isReadPrecompileAddress_iff address).1 hread),
      if_neg (mt (hrange address).1 hin)]
    exact Option.or_none

/-- A block in which `0x801` is called twice with the same input, and `0x90a` is the highest
    address. -/
def recordedTwice : HlExtras where
  readPrecompileCalls := some
    [(0x801, [(⟨[1], 2000⟩, .ok 1000 [7]), (⟨[2], 2000⟩, .error), (⟨[1], 2000⟩, .ok 1000 [8])]),
      (0x80d, [])]
  highestPrecompileAddress := some 0x90a

/-- The later result is returned, and the addresses above `0x8ff` are filled, too. -/
theorem dispatches_recordedTwice : ∃ installed,
    applyPrecompilesWithForwarder 8197684 recordedTwice none (fun _ => none) = .ok installed ∧
      (installed 0x801).map (· [1] 2000) = some (.ok (.ok ⟨1000, [8], false⟩)) ∧
      (installed 0x905).map (· [1] 2000) = some (.ok (.error .outOfGas)) ∧
      applyPrecompilesWithForwarder 8197684 recordedTwice none installed = .ok installed := by
  obtain ⟨installed, happly, hdispatches, hagain⟩ :=
    applyPrecompilesWithForwarder_dispatches 8197684 recordedTwice none (fun _ => none)
      (by decide) (by rintro a ⟨⟩; decide)
  refine ⟨installed, happly, ?_, ?_, hagain⟩
  · obtain ⟨precompile, hinstalled, hreplays⟩ := hdispatches.replays 0x801 _ List.mem_cons_self
    rw [hinstalled, Option.map_some]
    exact congrArg some (hreplays [1] 2000 [(⟨[1], 2000⟩, .ok 1000 [7]), (⟨[2], 2000⟩, .error)]
      (.ok 1000 [8]) [] rfl (by simp))
  · obtain ⟨precompile, hinstalled, hfilled⟩ := hdispatches.filled 0x905 (by decide)
      ⟨by decide, by decide, by decide⟩ (.inr rfl)
    rw [hinstalled, Option.map_some]
    exact congrArg some (hfilled [1] 2000)

end Nanoreth
