import Nanoreth.Types.RoundTrip

/-!
# Senders of system transactions

The senders of system transactions are kept in the `s` of their signatures (`addressToS`). Three
kinds of values share the 256 bits of `s`: addresses, `1` for native transfers, and the values of
spot assets. They do not get in each other's way: the values that are produced are exactly the
encodings of addresses, each of one address (`senderEncoding_bijective`).
-/

namespace Nanoreth

open Partial

/-- What is produced is the encoding of an address, and the other way round. -/
theorem encodesSender_iff {s : U256} : EncodesSender s ↔ s ∈ Set.range addressToS := by
  constructor
  · intro h
    exact ⟨sToAddress s, h.addressToS_sToAddress⟩
  · rintro ⟨sender, rfl⟩
    exact .address sender

theorem addressToS_injective : Function.Injective addressToS :=
  Function.LeftInverse.injective sToAddress_addressToS

/-- Different values that are produced are those of different senders. -/
theorem EncodesSender.sToAddress_ne {s s' : U256} (h : EncodesSender s) (h' : EncodesSender s')
    (hne : s ≠ s') : sToAddress s ≠ sToAddress s' := by
  intro heq
  rw [← h.addressToS_sToAddress, ← h'.addressToS_sToAddress, heq] at hne
  exact hne rfl

/-- Tokens have different encodings. -/
theorem toS_injective : Function.Injective SpotId.toS := by
  rintro ⟨index⟩ ⟨index'⟩ heq
  have hnat := congrArg BitVec.toNat heq
  rw [toNat_toS, toNat_toS, Nat.add_left_cancel_iff] at hnat
  exact congrArg SpotId.mk (UInt64.toNat_inj.1 hnat)

theorem toS_ne_one (spot : SpotId) : spot.toS ≠ 1 := by
  intro heq
  have hnat := congrArg BitVec.toNat heq
  rw [toNat_toS] at hnat
  change _ = 1 at hnat
  omega

theorem toS_ne_addressOneS (spot : SpotId) : spot.toS ≠ addressOneS := by
  intro heq
  have hnat := congrArg BitVec.toNat heq
  have hlt := spot.index.toNat_lt
  rw [toNat_toS] at hnat
  change _ = 2 ^ 160 + 1 at hnat
  omega

/-- The signature of a system transaction encodes a sender. -/
theorem encodesSender_of_ok {env : SpotEnv} {fuel : ℕ} {chainId blockNumber : UInt64}
    {stx : SystemTx} {cache cache' : SpotCache} {tx : TransactionSigned}
    (h : systemTxToRethTransaction env fuel chainId blockNumber stx cache = .ok (tx, cache')) :
    EncodesSender tx.signature.s := by
  cases htx : stx.tx with
  | legacy payload =>
    cases htarget : payload.target with
    | call target =>
      simp only [systemTxToRethTransaction, htx, htarget, bind_eq_ok, pure_eq_ok,
        Prod.mk.injEq] at h
      obtain ⟨s, _, hs, rfl, _⟩ := h
      exact encodesSender_of_toS hs
    | create =>
      simp only [systemTxToRethTransaction, htx, htarget] at h
      cases h
  | eip2930 payload | eip1559 payload | eip4844 payload | eip7702 payload =>
    simp only [systemTxToRethTransaction, htx] at h
    cases h

/-- The encoding of senders. An address is recovered from its encoding, so that different
    addresses have different ones. Whatever the node converts, the `s` it produces is that of the
    sender recovered from it; and the values it can produce are exactly the encodings of addresses.
    The senders of native transfers and of the spot assets, and the address that is escaped, are
    pairwise different. -/
theorem senderEncoding_bijective :
    (∀ sender, sToAddress (addressToS sender) = sender) ∧
    Set.BijOn addressToS Set.univ {s | EncodesSender s} ∧
    (∀ s, EncodesSender s → addressToS (sToAddress s) = s) ∧
    (∀ env fuel chainId blockNumber stx cache tx cache',
      systemTxToRethTransaction env fuel chainId blockNumber stx cache = .ok (tx, cache') →
      EncodesSender tx.signature.s) ∧
    sToAddress 1 ≠ sToAddress (addressToS addressOne) ∧
    (∀ spot : SpotId, sToAddress spot.toS ≠ sToAddress 1 ∧
      sToAddress spot.toS ≠ sToAddress (addressToS addressOne)) ∧
    ∀ spot spot' : SpotId, spot ≠ spot' → sToAddress spot.toS ≠ sToAddress spot'.toS := by
  have hescaped : addressToS addressOne = addressOneS := by decide
  refine ⟨sToAddress_addressToS, ?_, fun s h => h.addressToS_sToAddress, ?_, ?_, ?_, ?_⟩
  -- Every encoding is that of an address, so that nothing is left over.
  · refine ⟨fun sender _ => .address sender, addressToS_injective.injOn, fun s hs => ?_⟩
    obtain ⟨sender, hsender⟩ := encodesSender_iff.1 hs
    exact ⟨sender, trivial, hsender⟩
  · exact fun _ _ _ _ _ _ _ _ h => encodesSender_of_ok h
  · exact EncodesSender.hype.sToAddress_ne (.address _) (by rw [hescaped]; decide)
  · intro spot
    exact ⟨(EncodesSender.spot spot).sToAddress_ne .hype (toS_ne_one spot),
      (EncodesSender.spot spot).sToAddress_ne (.address _) (hescaped ▸ toS_ne_addressOneS spot)⟩
  · intro spot spot' hne
    exact (EncodesSender.spot spot).sToAddress_ne (.spot spot') (toS_injective.ne hne)

end Nanoreth
