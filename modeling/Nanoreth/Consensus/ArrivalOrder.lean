import Nanoreth.Consensus.CanonicalHead
import Mathlib.Data.Prod.Lex
import Mathlib.Order.Bounds.Basic

/-!
# The order of announcements

Blocks are announced to the node one after the other. After each announcement the head is
set to the one `canonicalHead` returns, which the next announcement is compared with
(`announceAll`).

Heads are linearly ordered, a head being better than another one if its number is higher,
or the same and its hash lower. `canonicalHead` returns the better of the announced block
and the head (`announce_eq`). What the node ends up with is thus the best block of all, in
whichever order, and however often, they are announced (`announceAll_spec`).
-/

namespace Nanoreth

open Partial HlConsensus

/-- A block that is announced, or the head. -/
structure Head where
  hash : B256
  number : UInt64
  deriving DecidableEq

namespace Head

/-- The rank of a head: its number, and then its hash, the lower the better. -/
def rank (head : Head) : ℕ ×ₗ ℕᵒᵈ :=
  toLex (head.number.toNat, OrderDual.toDual head.hash.toNat)

/-- Heads of the same rank are the same. -/
theorem rank_injective : Function.Injective rank := by
  rintro ⟨hash, number⟩ ⟨hash', number'⟩ h
  obtain ⟨hnumber, hhash⟩ := Prod.mk.inj (toLex.injective h)
  obtain rfl := UInt64.toNat_inj.1 hnumber
  obtain rfl := BitVec.eq_of_toNat_eq (OrderDual.toDual.injective hhash)
  rfl

/-- The worse heads are below the better ones. -/
instance : LinearOrder Head := LinearOrder.lift' rank rank_injective

/-- A head is at least another one if its number is larger, or the same and its hash not larger. -/
theorem le_iff (head head' : Head) :
    head ≤ head' ↔ head.number < head'.number ∨
      head.number = head'.number ∧ head'.hash ≤ head.hash := by
  rw [UInt64.lt_iff_toNat_lt, ← UInt64.toNat_inj, BitVec.le_def]
  exact Prod.Lex.toLex_le_toLex

end Head

/-- A provider with the given head, and no other block. -/
def providerAt {P : Type} (head : Head) : Provider P where
  bestBlockNumber := .ok head.number
  blockHash number := .ok (if number = head.number then some head.hash else none)

/-- Processes an announcement, and sets the head to the block that is returned. Its number
    is the higher one of the two, as no block of a lower number is returned. -/
def announce {P : Type} (head announced : Head) : Except (HlConsensusErr P) Head := do
  let (hash, _) ← canonicalHead (providerAt head) announced.hash announced.number
  return { hash := hash, number := max announced.number head.number }

/-- Processes announcements in turn. -/
def announceAll {P : Type} (head : Head) (announced : List Head) :
    Except (HlConsensusErr P) Head :=
  announced.foldlM announce head

/-- The head is set to the better of the two blocks. -/
theorem followed_eq (head announced : Head) :
    (⟨followed announced.hash announced.number head.hash head.number,
      max announced.number head.number⟩ : Head) = max head announced := by
  have hmax : max announced.number head.number =
      if announced.number ≤ head.number then head.number else announced.number := rfl
  rw [hmax, max_def]
  simp only [followed, Head.le_iff, gt_iff_lt]
  rcases lt_trichotomy head.number.toNat announced.number.toNat with h | h | h
  · rw [← UInt64.lt_iff_toNat_lt] at h
    rw [if_pos h, if_neg (UInt64.not_le.2 h), if_pos (.inl h)]
  · -- Blocks of the same number are compared by their hashes.
    obtain ⟨hash, number⟩ := head
    obtain ⟨hash', number'⟩ := announced
    obtain rfl : number = number' := UInt64.toNat_inj.1 h
    simp only [UInt64.lt_irrefl, if_false, if_true, UInt64.le_refl, true_and, false_or]
    split <;> rfl
  · rw [← UInt64.lt_iff_toNat_lt] at h
    have hne : ¬(head.number < announced.number ∨
        head.number = announced.number ∧ announced.hash ≤ head.hash) := by
      rintro (hlt | ⟨heq, -⟩)
      · exact UInt64.lt_asymm h hlt
      · exact UInt64.ne_of_lt h heq.symm
    rw [if_neg (UInt64.lt_asymm h), if_neg (UInt64.ne_of_lt h), if_pos (UInt64.le_of_lt h),
      if_neg hne]

/-- An announcement makes the better one of the two blocks the head. -/
theorem announce_eq {P : Type} (head announced : Head) :
    (announce head announced : Except (HlConsensusErr P) Head) = .ok (max head announced) := by
  have hhead : canonicalHead (P := P) (providerAt head) announced.hash announced.number =
      .ok (followed announced.hash announced.number head.hash head.number, head.hash) :=
    canonicalHead_eq_ok.2 ⟨head.number, rfl, by simp [providerAt], rfl⟩
  rw [announce, hhead, ← followed_eq]
  rfl

/-- Announcing heads one after the other ends with the largest one. -/
theorem announceAll_eq {P : Type} (head : Head) (announced : List Head) :
    (announceAll head announced : Except (HlConsensusErr P) Head) =
      .ok (announced.foldl max head) := by
  induction announced generalizing head with
  | nil => rfl
  | cons a announced ih =>
    rw [announceAll, List.foldlM_cons, announce_eq]
    exact ih (max head a)

/-- The best of the announced blocks and the head. -/
theorem isGreatest_foldl_max (head : Head) (announced : List Head) :
    IsGreatest (insert head {a | a ∈ announced}) (announced.foldl max head) := by
  induction announced generalizing head with
  | nil => simp
  | cons a announced ih =>
    have hset : insert head {b | b ∈ a :: announced} =
        insert head (insert a {b | b ∈ announced}) := by
      ext b
      simp
    obtain ⟨hmem, hupper⟩ := ih (max head a)
    rw [List.foldl_cons, hset]
    refine ⟨?_, ?_⟩
    · rcases hmem with hmem | hmem
      · rw [hmem]
        rcases max_choice head a with h | h <;> simp [h]
      · exact .inr (.inr hmem)
    · rintro b (rfl | rfl | hb)
      · exact (le_max_left b a).trans (hupper (.inl rfl))
      · exact (le_max_right head b).trans (hupper (.inl rfl))
      · exact hupper (.inr hb)

/-- **Arrival order**: the head after some announcements is the one of the highest number, and
    of the lowest hash among those, of the first head and the announced blocks. It is the same
    for every list of announcements of the same blocks. -/
theorem announceAll_spec {P : Type} (head : Head) (announced : List Head) :
    ∃ best, (announceAll head announced : Except (HlConsensusErr P) Head) = .ok best ∧
      best ∈ head :: announced ∧
      (∀ a ∈ head :: announced, a.number < best.number ∨
        a.number = best.number ∧ best.hash ≤ a.hash) ∧
      ∀ announced', (∀ a, a ∈ announced' ↔ a ∈ announced) →
        (announceAll head announced' : Except (HlConsensusErr P) Head) = .ok best := by
  obtain ⟨hmem, hupper⟩ := isGreatest_foldl_max head announced
  refine ⟨announced.foldl max head, announceAll_eq head announced, List.mem_cons.2 hmem,
    fun a ha => (Head.le_iff a _).1 (hupper (List.mem_cons.1 ha)), fun announced' h => ?_⟩
  -- The best block is determined by the set of blocks.
  have hset : {a | a ∈ announced'} = {a | a ∈ announced} := Set.ext h
  have hbest := isGreatest_foldl_max head announced'
  rw [hset] at hbest
  rw [announceAll_eq, hbest.unique ⟨hmem, hupper⟩]

end Nanoreth
