import Mathlib.Algebra.Group.Nat.Defs
import Mathlib.Data.List.Forall2

/-!
# Partial computations

A computation of a program may not return: it may *panic*, or go on for ever. The
latter is modelled by a bound on the number of iterations of its loops, the
computation giving up when it is out of *fuel* (`Halt`).

* Checked operations panic where machine arithmetic would wrap (`checkedAdd`, `checkedSub`,
  `checkedMul`), or at an index out of range (`drain`).
* A computation with a state, applied to the elements of a list in turn, gives
  one result for each, from some state (`forall₂_of_mapM`); it does not change the
  state if no application does (`mapM_eq_of_forall₂`).
-/

namespace Partial

/-- Why a computation does not return. -/
inductive Halt
  | panic (message : String)
  | outOfFuel
  deriving DecidableEq

/-- Subtraction of integers that are not negative, panicking on underflow. -/
def checkedSub {α : Type} [LE α] [DecidableLE α] [Sub α] (a b : α) : Except Halt α :=
  if b ≤ a then .ok (a - b) else .error (.panic "attempt to subtract with overflow")

theorem checkedSub_of_le {α : Type} [LE α] [DecidableLE α] [Sub α] {a b : α} (h : b ≤ a) :
    checkedSub a b = .ok (a - b) :=
  if_pos h

/-- If a subtraction succeeds, the result is the difference. -/
theorem eq_of_checkedSub {α : Type} [LE α] [DecidableLE α] [Sub α] {a b c : α}
    (h : checkedSub a b = .ok c) : c = a - b := by
  rw [checkedSub] at h
  split_ifs at h
  exact (Except.ok.inj h).symm

/-- Addition of integers of `w` bits, panicking on overflow. -/
def checkedAdd (w a b : ℕ) : Except Halt ℕ :=
  if a + b < 2 ^ w then .ok (a + b) else .error (.panic "attempt to add with overflow")

theorem checkedAdd_of_lt {w a b : ℕ} (h : a + b < 2 ^ w) : checkedAdd w a b = .ok (a + b) :=
  if_pos h

theorem eq_of_checkedAdd {w a b c : ℕ} (h : checkedAdd w a b = .ok c) : c = a + b := by
  rw [checkedAdd] at h
  split_ifs at h
  exact (Except.ok.inj h).symm

/-- Multiplication of integers of `w` bits, panicking on overflow. -/
def checkedMul (w a b : ℕ) : Except Halt ℕ :=
  if a * b < 2 ^ w then .ok (a * b) else .error (.panic "attempt to multiply with overflow")

/-- A multiplication that does not overflow succeeds. -/
theorem checkedMul_of_lt {w a b : ℕ} (h : a * b < 2 ^ w) : checkedMul w a b = .ok (a * b) :=
  if_pos h

/-- Removes the first `n` elements of a list, panicking if there are not that many. -/
def drain {α : Type} (n : ℕ) (xs : List α) : Except Halt (List α) :=
  if n ≤ xs.length then .ok (xs.drop n)
  else .error (.panic "range end index out of range for slice")

theorem drain_of_le {α : Type} {n : ℕ} {xs : List α} (h : n ≤ xs.length) :
    drain n xs = .ok (xs.drop n) :=
  if_pos h

variable {S α β ε : Type}

theorem bind_apply (x : StateT S (Except ε) α) (f : α → StateT S (Except ε) β) (s : S) :
    (x >>= f) s = (x s).bind fun r => f r.1 r.2 := rfl

/-- Running a computation after another one from the state `s` succeeds when
    both succeed, the second from the state left by the first. -/
theorem bind_eq_ok {x : StateT S (Except ε) α} {f : α → StateT S (Except ε) β} {s : S} {r : β × S} :
    (x >>= f) s = .ok r ↔ ∃ a s', x s = .ok (a, s') ∧ f a s' = .ok r := by
  change (x s >>= fun p => f p.1 p.2) = _ ↔ _
  cases hx : x s with
  | error e => simp [bind, Except.bind]
  | ok p => exact ⟨fun h => ⟨p.1, p.2, rfl, h⟩, fun ⟨_, _, hp, h⟩ => by cases hp; exact h⟩

/-- A pure computation returns its value and leaves the state. -/
theorem pure_eq_ok {a : α} {s : S} {r : α × S} :
    (pure a : StateT S (Except ε) α) s = .ok r ↔ r = (a, s) := by
  change Except.ok (a, s) = Except.ok r ↔ _
  rw [Except.ok.injEq, eq_comm]

/-- The same of computations without a state. -/
theorem except_bind_eq_ok {x : Except ε α} {f : α → Except ε β} {b : β} :
    (x >>= f) = .ok b ↔ ∃ a, x = .ok a ∧ f a = .ok b := by
  cases x <;> simp [bind, Except.bind]

theorem ok_bind (a : α) (f : α → Except ε β) : (Except.ok a).bind f = f a := rfl

theorem error_bind (e : ε) (f : α → Except ε β) : (Except.error e).bind f = .error e := rfl

/-! ### Computations that may give nothing -/

theorem mk_some_bind (a : α) (f : α → OptionT (Except ε) β) :
    (OptionT.mk (.ok (some a)) >>= f) = f a := rfl

theorem mk_none_bind (f : α → OptionT (Except ε) β) :
    (OptionT.mk (.ok none) >>= f) = OptionT.mk (.ok none) := rfl

theorem mk_error_bind (e : ε) (f : α → OptionT (Except ε) β) :
    (OptionT.mk (.error e) >>= f) = OptionT.mk (.error e) := rfl

theorem lift_ok_bind (a : α) (f : α → OptionT (Except ε) β) :
    (OptionT.lift (.ok a) >>= f) = f a := rfl

theorem map_bind {γ : Type} (x : Except ε α) (g : α → β) (f : β → Except ε γ) :
    (x.map g).bind f = x.bind fun a => f (g a) := by
  cases x <;> rfl

/-- A result does not depend on how errors are mapped. -/
theorem mapError_eq_ok {ε' : Type} {x : Except ε α} {f : ε → ε'} {a : α} :
    x.mapError f = .ok a ↔ x = .ok a := by
  cases x <;> simp [Except.mapError]

/-- A computation that succeeds for every element of a list gives their results, in order. -/
theorem mapM_eq_ok {f : α → Except ε β} {g : α → β} {xs : List α}
    (h : ∀ x ∈ xs, f x = .ok (g x)) : xs.mapM f = .ok (xs.map g) := by
  induction xs with
  | nil => rfl
  | cons x xs ih =>
    rw [List.forall_mem_cons] at h
    rw [List.mapM_cons, h.1, ih h.2]
    rfl

/-- The results of a computation on a list are those of its elements. -/
theorem exists_of_mem_mapM {f : α → Except ε β} {xs : List α} {ys : List β}
    (h : xs.mapM f = .ok ys) {y : β} (hy : y ∈ ys) : ∃ x ∈ xs, f x = .ok y := by
  induction xs generalizing ys with
  | nil =>
    cases h
    cases hy
  | cons x xs ih =>
    rw [List.mapM_cons, except_bind_eq_ok] at h
    obtain ⟨z, hz, h⟩ := h
    obtain ⟨zs, hzs, h⟩ := except_bind_eq_ok.1 h
    cases h
    rcases List.mem_cons.1 hy with rfl | hy
    · exact ⟨x, List.mem_cons_self, hz⟩
    · obtain ⟨x', hx', hy⟩ := ih hzs hy
      exact ⟨x', List.mem_cons_of_mem _ hx', hy⟩

/-- A computation applied to the elements of a list gives a result for each of
    them in order, from some state. -/
theorem forall₂_of_mapM {f : α → StateT S (Except ε) β} {xs : List α} {ys : List β} {s s' : S}
    (h : xs.mapM f s = .ok (ys, s')) :
    List.Forall₂ (fun x y => ∃ s₁ s₂, f x s₁ = .ok (y, s₂)) xs ys := by
  induction xs generalizing ys s s' with
  | nil =>
    rw [List.mapM_nil, pure_eq_ok, Prod.mk.injEq] at h
    rw [h.1]
    exact .nil
  | cons x xs ih =>
    rw [List.mapM_cons, bind_eq_ok] at h
    obtain ⟨y, s₁, hy, h⟩ := h
    rw [bind_eq_ok] at h
    obtain ⟨ys', s₂, hys, h⟩ := h
    rw [pure_eq_ok, Prod.mk.injEq] at h
    rw [h.1]
    exact .cons ⟨s, s₁, hy⟩ (ih hys)

/-- The same without the order. -/
theorem results_of_mapM {f : α → StateT S (Except ε) β} {xs : List α} {ys : List β} {s s' : S}
    (h : xs.mapM f s = .ok (ys, s')) :
    ys.length = xs.length ∧ ∀ y ∈ ys, ∃ x ∈ xs, ∃ s₁ s₂, f x s₁ = .ok (y, s₂) := by
  have hresults := forall₂_of_mapM h
  refine ⟨hresults.length_eq.symm, fun y hy => ?_⟩
  obtain ⟨i, hi, rfl⟩ := List.getElem_of_mem hy
  have hi' : i < xs.length := hresults.length_eq ▸ hi
  exact ⟨xs[i], List.getElem_mem hi', hresults.get hi' hi⟩

/-- A computation that succeeds at every element of a list, from all states, succeeds on the whole
    list. -/
theorem exists_mapM {f : α → StateT S (Except ε) β} {xs : List α}
    (h : ∀ x ∈ xs, ∀ s, ∃ r, f x s = .ok r) (s : S) : ∃ ys s', xs.mapM f s = .ok (ys, s') := by
  induction xs generalizing s with
  | nil => exact ⟨[], s, rfl⟩
  | cons x xs ih =>
    rw [List.forall_mem_cons] at h
    obtain ⟨⟨y, s₁⟩, hy⟩ := h.1 s
    obtain ⟨ys, s₂, hys⟩ := ih h.2 s₁
    refine ⟨y :: ys, s₂, ?_⟩
    rw [List.mapM_cons, bind_eq_ok]
    refine ⟨y, s₁, hy, ?_⟩
    rw [bind_eq_ok]
    exact ⟨ys, s₂, hys, rfl⟩

/-- A computation that leaves the state unchanged at every element of a list does
    so on the whole list. -/
theorem mapM_eq_of_forall₂ {f : α → StateT S (Except ε) β} {xs : List α} {ys : List β}
    (h : List.Forall₂ (fun x y => ∀ s, f x s = .ok (y, s)) xs ys) (s : S) :
    xs.mapM f s = .ok (ys, s) := by
  induction h with
  | nil => rfl
  | cons hx _ ih =>
    rw [List.mapM_cons, bind_eq_ok]
    refine ⟨_, s, hx s, ?_⟩
    rw [bind_eq_ok]
    exact ⟨_, s, ih, rfl⟩

/-- A computation that succeeds at every element of a list collects its results. -/
theorem filterMapM_eq_of_forall₂ {f : α → Except ε (Option β)} {xs : List α}
    {ys : List (Option β)} (h : List.Forall₂ (fun x y => f x = .ok y) xs ys) :
    xs.filterMapM f = .ok (ys.filterMap id) := by
  induction h with
  | nil => rfl
  | @cons x y xs ys hx _ ih =>
    rw [List.filterMapM_cons, hx]
    change (match y with
      | none => xs.filterMapM f
      | some b => do return b :: (← xs.filterMapM f)) = _
    rw [ih]
    cases y <;> rfl

end Partial
