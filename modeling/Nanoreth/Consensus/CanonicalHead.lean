import Nanoreth.Primitives.Transaction
import Nanoreth.Lib.Partial
import Mathlib.Tactic.SplitIfs

/-!
# The canonical head

Between an announced block and the head of its chain, the node follows the one of the
higher number, and the one of the lower hash among blocks of the same number
(`consensus.rs`). Given the number of the block of each hash, this is a preorder on hashes
(`AtLeast`), and the node takes the better of the two (`followed_spec`).
-/

namespace Nanoreth

open Partial

/-- The blocks of a provider, as it answers for them. -/
structure Provider (P : Type) where
  bestBlockNumber : Except P UInt64
  blockHash : UInt64 → Except P (Option B256)

/-- Why there is no head. -/
inductive HlConsensusErr (P : Type)
  | provider (error : P)
  | headHashNotFound
  deriving DecidableEq

namespace HlConsensus

/-- The head to follow, between a block and the current head. -/
def followed (hash : B256) (number : UInt64) (currentHash : B256) (currentHead : UInt64) : B256 :=
  if number > currentHead then hash
  else if number = currentHead then if hash ≤ currentHash then hash else currentHash
  else currentHash

/-- The head to follow once a block is announced, and the current one. -/
def canonicalHead {P : Type} (provider : Provider P) (hash : B256) (number : UInt64) :
    Except (HlConsensusErr P) (B256 × B256) := do
  let currentHead ← provider.bestBlockNumber.mapError .provider
  match ← (provider.blockHash currentHead).mapError .provider with
  | none => throw .headHashNotFound
  | some currentHash => return (followed hash number currentHash currentHead, currentHash)

end HlConsensus

/-- The block of the hash `a` is at least as good as that of the hash `b`: its number is
    higher, or the same and its hash not higher. -/
def AtLeast (numberOf : B256 → UInt64) (a b : B256) : Prop :=
  numberOf b < numberOf a ∨ numberOf b = numberOf a ∧ a ≤ b

instance (numberOf : B256 → UInt64) (a b : B256) : Decidable (AtLeast numberOf a b) :=
  inferInstanceAs (Decidable (_ ∨ _))

namespace AtLeast

variable {numberOf : B256 → UInt64} {a b c : B256}

theorem iff_toNat : AtLeast numberOf a b ↔ (numberOf b).toNat < (numberOf a).toNat ∨
    (numberOf b).toNat = (numberOf a).toNat ∧ a.toNat ≤ b.toNat := by
  rw [AtLeast, UInt64.lt_iff_toNat_lt, ← UInt64.toNat_inj, BitVec.le_def]

theorem trans (h : AtLeast numberOf a b) (h' : AtLeast numberOf b c) :
    AtLeast numberOf a c := by
  rw [iff_toNat] at h h' ⊢
  omega

end AtLeast

namespace HlConsensus

variable {P : Type} {provider : Provider P} {numberOf : B256 → UInt64} {hash head current : B256}
  {number : UInt64}

/-- There is a head if and only if the provider answers, and has the block of its best
    number. -/
theorem canonicalHead_eq_ok :
    canonicalHead provider hash number = .ok (head, current) ↔
      ∃ best, provider.bestBlockNumber = .ok best ∧
        provider.blockHash best = .ok (some current) ∧
        head = followed hash number current best := by
  rw [canonicalHead, except_bind_eq_ok]
  refine exists_congr fun best => ?_
  rw [mapError_eq_ok, except_bind_eq_ok]
  refine and_congr_right fun _ => ⟨?_, ?_⟩
  · rintro ⟨found, hfound, h⟩
    rw [mapError_eq_ok] at hfound
    cases found with
    | none => cases h
    | some currentHash =>
      cases h
      exact ⟨hfound, rfl⟩
  · rintro ⟨hfound, rfl⟩
    exact ⟨some current, mapError_eq_ok.2 hfound, rfl⟩

/-- The head to follow is one of the two blocks, and at least as good as both. -/
theorem followed_spec (numberOf : B256 → UInt64) (hash current : B256) :
    let head := followed hash (numberOf hash) current (numberOf current)
    (head = hash ∨ head = current) ∧ AtLeast numberOf head hash ∧
      AtLeast numberOf head current := by
  simp only [followed, AtLeast.iff_toNat]
  split_ifs with hgt heq hle
  · exact ⟨.inl rfl, .inr ⟨rfl, le_rfl⟩, .inl (UInt64.lt_iff_toNat_lt.1 hgt)⟩
  · exact ⟨.inl rfl, .inr ⟨rfl, le_rfl⟩, .inr ⟨by rw [heq], BitVec.le_def.1 hle⟩⟩
  · refine ⟨.inr rfl, .inr ⟨by rw [heq], ?_⟩, .inr ⟨rfl, le_rfl⟩⟩
    rw [BitVec.le_def] at hle
    omega
  · refine ⟨.inr rfl, .inl ?_, .inr ⟨rfl, le_rfl⟩⟩
    rw [gt_iff_lt, UInt64.lt_iff_toNat_lt] at hgt
    rw [← UInt64.toNat_inj] at heq
    omega

/-- The head to follow is at least as good as the blocks one of the two is. -/
theorem atLeast_followed_iff (hash current other : B256) :
    AtLeast numberOf (followed hash (numberOf hash) current (numberOf current)) other ↔
      AtLeast numberOf hash other ∨ AtLeast numberOf current other := by
  obtain ⟨hor, hhash, hcurrent⟩ := followed_spec (numberOf) hash current
  constructor
  · intro h
    rcases hor with heq | heq
    · exact .inl (heq ▸ h)
    · exact .inr (heq ▸ h)
  · rintro (h | h)
    · exact hhash.trans h
    · exact hcurrent.trans h

end HlConsensus

end Nanoreth
