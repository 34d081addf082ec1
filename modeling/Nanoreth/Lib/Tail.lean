import Mathlib.Data.List.Basic
import Mathlib.Order.Bounds.Basic
import Mathlib.Order.MinMax

/-!
# Tailing a log

A log grows by entries whose keys increase. A reader interested in the keys from `s` on
has read some of them; its *position* is where it has to go on: one more than the
greatest of these keys, or `s` if there are none (`Position`).

* The position decides, of the entries that come, which ones are of interest: those from the
  position on are those from `s` on (`Position.le_iff`).
* The position after some more entries is given by their greatest key from `s` on
  (`position_append_of_isGreatest`). It is the one before if there is none
  (`position_append_of_lt`).
-/

namespace Tail

variable {s t n m : ℕ} {seen new : List ℕ}

/-- The keys from `s` on. -/
def keysFrom (s : ℕ) (keys : List ℕ) : Set ℕ := {k | s ≤ k ∧ k ∈ keys}

/-- `n` is one more than the greatest of the keys from `s` on, or `s` if there are none. -/
def Position (s : ℕ) (keys : List ℕ) (n : ℕ) : Prop :=
  (∃ k, IsGreatest (keysFrom s keys) k ∧ n = k + 1) ∨ ((∀ k ∈ keys, k < s) ∧ n = s)

theorem keysFrom_append : keysFrom s (seen ++ new) = keysFrom s seen ∪ keysFrom s new := by
  ext k
  simp only [keysFrom, Set.mem_union, Set.mem_ofPred_eq, List.mem_append]
  tauto

theorem keysFrom_cons (k : ℕ) :
    keysFrom s (k :: new) = if s ≤ k then insert k (keysFrom s new) else keysFrom s new := by
  ext j
  split <;> simp only [keysFrom, Set.mem_insert_iff, Set.mem_ofPred_eq, List.mem_cons]
  · constructor
    · rintro ⟨hj, rfl | hmem⟩
      · exact .inl rfl
      · exact .inr ⟨hj, hmem⟩
    · rintro (rfl | ⟨hj, hmem⟩)
      · exact ⟨by assumption, .inl rfl⟩
      · exact ⟨hj, .inr hmem⟩
  · constructor
    · rintro ⟨hj, rfl | hmem⟩
      · contradiction
      · exact ⟨hj, hmem⟩
    · exact fun ⟨hj, hmem⟩ => ⟨hj, .inr hmem⟩

theorem keysFrom_eq_empty (h : ∀ k ∈ new, k < s) : keysFrom s new = ∅ := by
  ext k
  simp only [keysFrom, Set.mem_ofPred_eq, Set.mem_empty_iff_false, iff_false, not_and]
  exact fun hk hmem => absurd (h k hmem) (Nat.not_lt.2 hk)

/-- The greatest of a set, computed with two of its elements at once. -/
theorem isGreatest_insert_insert {a b : ℕ} {S : Set ℕ} (h : IsGreatest (insert (max a b) S) m) :
    IsGreatest (insert a (insert b S)) m := by
  obtain ⟨hmem, hupper⟩ := h
  have hmax : max a b ≤ m := hupper (Set.mem_insert _ _)
  refine ⟨?_, ?_⟩
  · rcases hmem with rfl | hmem
    · rcases max_choice a b with h | h <;> simp [h]
    · exact .inr (.inr hmem)
  · rintro k (rfl | rfl | hk)
    · exact le_of_max_le_left hmax
    · exact le_of_max_le_right hmax
    · exact hupper (.inr hk)

/-- The greatest of a set, found with a lower bound of it. -/
theorem isGreatest_of_insert {a : ℕ} {S : Set ℕ} (h : IsGreatest (insert a S) m)
    (hne : S.Nonempty) (ha : a ∈ lowerBounds S) : IsGreatest S m := by
  obtain ⟨rfl | hmem, hupper⟩ := h
  · obtain ⟨k, hk⟩ := hne
    have hkm : k = m := le_antisymm (hupper (.inr hk)) (ha hk)
    exact ⟨hkm ▸ hk, fun j hj => hupper (.inr hj)⟩
  · exact ⟨hmem, fun j hj => hupper (.inr hj)⟩

theorem position_nil : Position s [] s :=
  .inr ⟨fun _ hk => absurd hk List.not_mem_nil, rfl⟩

namespace Position

theorem le (h : Position s seen t) : s ≤ t := by
  obtain ⟨k, hk, rfl⟩ | ⟨_, rfl⟩ := h
  · exact Nat.le_succ_of_le hk.1.1
  · exact le_rfl

/-- There is one position. -/
theorem unique (h : Position s seen t) (h' : Position s seen n) : t = n := by
  obtain ⟨k, hk, rfl⟩ | ⟨hlt, rfl⟩ := h <;> obtain ⟨k', hk', rfl⟩ | ⟨hlt', rfl⟩ := h'
  · rw [hk.unique hk']
  · exact absurd (hlt' k hk.1.2) (Nat.not_lt.2 hk.1.1)
  · exact absurd (hlt k' hk'.1.2) (Nat.not_lt.2 hk'.1.1)
  · rfl

/-- The entries to come from the position on are those from `s` on. -/
theorem le_iff (h : Position s seen t) (hinc : (seen ++ new).Pairwise (· < ·)) {k : ℕ}
    (hk : k ∈ new) : t ≤ k ↔ s ≤ k := by
  refine ⟨fun htk => h.le.trans htk, fun hsk => ?_⟩
  obtain ⟨g, hg, rfl⟩ | ⟨_, rfl⟩ := h
  · exact (List.pairwise_append.1 hinc).2.2 g hg.1.2 k hk
  · exact hsk

/-- Of new keys, those from the position on are those from the start on. -/
theorem keysFrom_eq (h : Position s seen t) (hinc : (seen ++ new).Pairwise (· < ·)) :
    keysFrom t new = keysFrom s new :=
  Set.ext fun _ => and_congr_left fun hk => h.le_iff hinc hk

end Position

/-- Entries before `s` do not move the position. -/
theorem position_append_of_lt (h : ∀ k ∈ new, k < s) :
    Position s (seen ++ new) n ↔ Position s seen n := by
  have hall : (∀ k ∈ seen ++ new, k < s) ↔ ∀ k ∈ seen, k < s := by
    simp only [List.mem_append, or_imp, forall_and, and_iff_left_iff_imp]
    exact fun _ => h
  rw [Position, Position, keysFrom_append, keysFrom_eq_empty h, Set.union_empty, hall]

/-- The position after entries of greatest key `m`. -/
theorem position_append_of_isGreatest (hinc : (seen ++ new).Pairwise (· < ·))
    (hm : IsGreatest (keysFrom s new) m) : Position s (seen ++ new) n ↔ n = m + 1 := by
  -- What has been read is smaller than what comes, hence than `m`.
  have hupper : m ∈ upperBounds (keysFrom s seen) := fun k hk =>
    ((List.pairwise_append.1 hinc).2.2 k hk.2 m hm.1.2).le
  have hgreatest : IsGreatest (keysFrom s (seen ++ new)) m := by
    rw [keysFrom_append, isGreatest_union_iff]
    exact .inr ⟨hupper, hm⟩
  have hpos : Position s (seen ++ new) (m + 1) := .inl ⟨m, hgreatest, rfl⟩
  exact ⟨fun h => h.unique hpos, fun h => h ▸ hpos⟩

end Tail
