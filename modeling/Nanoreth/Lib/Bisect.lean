import Nanoreth.Lib.Partial

/-!
# Bisection

A search keeps a lower and an upper bound. It probes a value, which becomes one of the two, and
goes on with the middle of them, until they are next to each other or it is close enough. The
first value to be probed need not be between the bounds. Nothing is assumed of the probes: they may
say of a value that it is too low, and of a lower one that it is not.

* What every probe preserves holds in the end, with the upper bound that the search returns
  (`search_invariant`).
* The distance of the bounds is halved by every probe but the first one. So a search that starts
  below `2 ^ k` takes no more than `k + 2` iterations, and fails only if a probe does
  (`error_of_search`).
-/

namespace Bisect

open Partial

/-- The bound that a value becomes. -/
inductive Side
  | lower
  | upper
  deriving DecidableEq

variable {S ε : Type}

/-- The upper bound found by a search from the given bounds, and the first value to probe. -/
def search (giveUp : ε) (probe : ℕ → StateT S (Except ε) Side) (stop : ℕ → ℕ → Bool) :
    ℕ → ℕ → ℕ → ℕ → StateT S (Except ε) ℕ
  | 0, _, _, _ => throw giveUp
  | fuel + 1, lower, upper, mid =>
    if lower + 1 < upper then
      if stop lower upper then pure upper
      else do
        match ← probe mid with
        | .lower => search giveUp probe stop fuel mid upper ((upper + mid) / 2)
        | .upper => search giveUp probe stop fuel lower mid ((mid + lower) / 2)
    else pure upper

variable {giveUp : ε} {probe : ℕ → StateT S (Except ε) Side} {stop : ℕ → ℕ → Bool}
  {fuel k lower upper mid : ℕ} {s s' : S}

/-- One round of the search. -/
theorem search_succ : search giveUp probe stop (fuel + 1) lower upper mid s =
    if lower + 1 < upper then
      if stop lower upper then .ok (upper, s)
      else
        match probe mid s with
        | .error e => .error e
        | .ok (.lower, s') => search giveUp probe stop fuel mid upper ((upper + mid) / 2) s'
        | .ok (.upper, s') => search giveUp probe stop fuel lower mid ((mid + lower) / 2) s'
    else .ok (upper, s) := by
  rw [search]
  by_cases hlt : lower + 1 < upper
  · rw [if_pos hlt, if_pos hlt]
    cases hstop : stop lower upper with
    | true => rfl
    | false =>
      change (probe mid s).bind _ = _
      cases probe mid s with
      | error e => rfl
      | ok r =>
        obtain ⟨side, s'⟩ := r
        cases side <;> rfl
  · rw [if_neg hlt, if_neg hlt]
    rfl

/-- A relation between the bounds, the value to probe and the state, that is preserved by
    probes. -/
structure Preserves (probe : ℕ → StateT S (Except ε) Side) (I : ℕ → ℕ → ℕ → S → Prop) : Prop where
  lower : ∀ {lower upper mid s s'}, lower + 1 < upper → I lower upper mid s →
    probe mid s = .ok (.lower, s') → I mid upper ((upper + mid) / 2) s'
  upper : ∀ {lower upper mid s s'}, lower + 1 < upper → I lower upper mid s →
    probe mid s = .ok (.upper, s') → I lower mid ((mid + lower) / 2) s'

variable {I : ℕ → ℕ → ℕ → S → Prop}

/-- What the probes preserve holds of the result and some lower bound. -/
theorem search_invariant (hI : Preserves probe I) {v : ℕ} (h₀ : I lower upper mid s)
    (h : search giveUp probe stop fuel lower upper mid s = .ok (v, s')) :
    ∃ lower' mid', I lower' v mid' s' := by
  induction fuel generalizing lower upper mid s with
  | zero => cases h
  | succ fuel ih =>
    rw [search_succ] at h
    split_ifs at h with hlt hstop
    · cases h
      exact ⟨lower, mid, h₀⟩
    · cases hprobe : probe mid s with
      | error e =>
        rw [hprobe] at h
        cases h
      | ok r =>
        obtain ⟨side, s₁⟩ := r
        rw [hprobe] at h
        cases side with
        | lower => exact ih (hI.lower hlt h₀ hprobe) h
        | upper => exact ih (hI.upper hlt h₀ hprobe) h
    · cases h
      exact ⟨lower, mid, h₀⟩

/-- The search fails as a probe does, where the relation holds. -/
def ProbeFails (probe : ℕ → StateT S (Except ε) Side) (I : ℕ → ℕ → ℕ → S → Prop) (e : ε) : Prop :=
  ∃ lower upper mid s, I lower upper mid s ∧ probe mid s = .error e

/-- An iteration does not fail but for its probe and the rest of the search. -/
theorem probeFails_of_succ (hI : Preserves probe I) {e : ε} (h₀ : I lower upper mid s)
    (h : search giveUp probe stop (fuel + 1) lower upper mid s = .error e)
    (hlower : ∀ s', lower + 1 < upper → I mid upper ((upper + mid) / 2) s' →
      search giveUp probe stop fuel mid upper ((upper + mid) / 2) s' = .error e →
        ProbeFails probe I e)
    (hupper : ∀ s', lower + 1 < upper → I lower mid ((mid + lower) / 2) s' →
      search giveUp probe stop fuel lower mid ((mid + lower) / 2) s' = .error e →
        ProbeFails probe I e) :
    ProbeFails probe I e := by
  rw [search_succ] at h
  split_ifs at h with hlt hstop
  cases hprobe : probe mid s with
  | error e' =>
    rw [hprobe] at h
    cases h
    exact ⟨lower, upper, mid, s, h₀, hprobe⟩
  | ok r =>
    obtain ⟨side, s₁⟩ := r
    rw [hprobe] at h
    cases side with
    | lower => exact hlower s₁ hlt (hI.lower hlt h₀ hprobe) h
    | upper => exact hupper s₁ hlt (hI.upper hlt h₀ hprobe) h

/-- From the middle, the distance is halved by every iteration. -/
theorem error_of_search_middle (hI : Preserves probe I) {e : ε} (hfuel : k < fuel)
    (hwidth : upper ≤ lower + 2 ^ k) (h₀ : I lower upper ((upper + lower) / 2) s)
    (h : search giveUp probe stop fuel lower upper ((upper + lower) / 2) s = .error e) :
    ProbeFails probe I e := by
  induction k generalizing fuel lower upper s with
  | zero =>
    obtain ⟨fuel, rfl⟩ := Nat.exists_eq_add_of_lt hfuel
    rw [search_succ, if_neg (by omega)] at h
    cases h
  | succ k ih =>
    obtain ⟨fuel, rfl⟩ := Nat.exists_eq_add_of_lt hfuel
    rw [Nat.pow_succ] at hwidth
    refine probeFails_of_succ hI h₀ h (fun s' hlt h₀' h' => ?_) fun s' hlt h₀' h' => ?_
    · exact ih (by omega) (by omega) h₀' h'
    · exact ih (by omega) (by omega) h₀' h'

/-- With enough fuel, an error of the search is one of a probe. -/
theorem error_of_search (hI : Preserves probe I) {e : ε} (hfuel : k + 1 < fuel)
    (hupper : upper ≤ 2 ^ k) (hmid : mid ≤ upper) (h₀ : I lower upper mid s)
    (h : search giveUp probe stop fuel lower upper mid s = .error e) : ProbeFails probe I e := by
  obtain ⟨fuel, rfl⟩ := Nat.exists_eq_add_of_lt hfuel
  refine probeFails_of_succ hI h₀ h (fun s' hlt h₀' h' => ?_) fun s' hlt h₀' h' => ?_
  · exact error_of_search_middle (k := k) hI (by omega) (by omega) h₀' h'
  · exact error_of_search_middle (k := k) hI (by omega) (by omega) h₀' h'

end Bisect
