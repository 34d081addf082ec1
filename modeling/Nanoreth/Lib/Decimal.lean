import Mathlib.Data.Char
import Mathlib.Data.Nat.Digits.Defs

/-!
# Numbers in decimal

Texts of digits and their values (`Nat.ofDigitChars`). A text of digits is determined by its value
and its length (`eq_of_ofDigitChars_eq`): it is that of its value, after zeros (`eq_zeros_append`).
-/

namespace Decimal

variable {ds ds' : List Char}

/-- The value of a numeral, by its first digit. -/
theorem ofDigitChars_cons_eq (c : Char) (ds : List Char) :
    Nat.ofDigitChars 10 (c :: ds) 0 =
      10 ^ ds.length * (c.toNat - '0'.toNat) + Nat.ofDigitChars 10 ds 0 := by
  rw [Nat.ofDigitChars_cons, Nat.ofDigitChars_eq_ofDigitChars_zero]
  simp

theorem digit_lt {c : Char} (h : c.isDigit = true) : c.toNat - '0'.toNat < 10 := by
  simp only [Char.isDigit, Bool.and_eq_true, decide_eq_true_eq] at h
  have hle : c.toNat ≤ 57 := h.2
  have hzero : '0'.toNat = 48 := rfl
  omega

/-- Digits of the same value are the same. -/
theorem eq_of_digit_eq {c c' : Char} (h : c.isDigit = true) (h' : c'.isDigit = true)
    (heq : c.toNat - '0'.toNat = c'.toNat - '0'.toNat) : c = c' := by
  simp only [Char.isDigit, Bool.and_eq_true, decide_eq_true_eq] at h h'
  have hle : 48 ≤ c.toNat := h.1
  have hle' : 48 ≤ c'.toNat := h'.1
  have hzero : '0'.toNat = 48 := rfl
  exact Char.toNat_inj.1 (by omega)

/-- A numeral of `n` digits is below `10 ^ n`. -/
theorem ofDigitChars_lt (h : ds.all Char.isDigit = true) :
    Nat.ofDigitChars 10 ds 0 < 10 ^ ds.length := by
  induction ds with
  | nil => simp
  | cons c ds ih =>
    rw [List.all_cons, Bool.and_eq_true] at h
    have hc := digit_lt h.1
    have hds := ih h.2
    rw [ofDigitChars_cons_eq, List.length_cons, Nat.pow_succ]
    calc 10 ^ ds.length * (c.toNat - '0'.toNat) + Nat.ofDigitChars 10 ds 0
        < 10 ^ ds.length * (c.toNat - '0'.toNat) + 10 ^ ds.length := by omega
      _ = 10 ^ ds.length * (c.toNat - '0'.toNat + 1) := by rw [Nat.mul_add, Nat.mul_one]
      _ ≤ 10 ^ ds.length * 10 := Nat.mul_le_mul_left _ hc

/-- As many digits, with the same value, are the same. -/
theorem eq_of_ofDigitChars_eq (h : ds.all Char.isDigit = true) (h' : ds'.all Char.isDigit = true)
    (hlen : ds.length = ds'.length)
    (heq : Nat.ofDigitChars 10 ds 0 = Nat.ofDigitChars 10 ds' 0) : ds = ds' := by
  induction ds generalizing ds' with
  | nil => exact (List.length_eq_zero_iff.1 hlen.symm).symm
  | cons c ds ih =>
    cases ds' with
    | nil => cases hlen
    | cons c' ds' =>
      rw [List.all_cons, Bool.and_eq_true] at h h'
      have hlen' : ds.length = ds'.length := Nat.succ.inj hlen
      have hlt := ofDigitChars_lt h.2
      have hlt' := ofDigitChars_lt h'.2
      rw [ofDigitChars_cons_eq, ofDigitChars_cons_eq, ← hlen'] at heq
      rw [← hlen'] at hlt'
      -- The first digit is the quotient by a power of ten, and the others are the remainder.
      have hpos : 0 < 10 ^ ds.length := Nat.pow_pos (by decide)
      have hfirst : c.toNat - '0'.toNat = c'.toNat - '0'.toNat := by
        have hdiv := congrArg (· / 10 ^ ds.length) heq
        simpa [Nat.mul_add_div hpos, Nat.div_eq_of_lt hlt, Nat.div_eq_of_lt hlt'] using hdiv
      have hrest : Nat.ofDigitChars 10 ds 0 = Nat.ofDigitChars 10 ds' 0 := by
        rw [hfirst] at heq
        exact Nat.add_left_cancel heq
      rw [eq_of_digit_eq h.1 h'.1 hfirst, ih h.2 h'.2 hlen' hrest]

theorem all_isDigit_toDigits (n : ℕ) : (Nat.toDigits 10 n).all Char.isDigit = true :=
  List.all_eq_true.2 fun _ => Nat.isDigit_of_mem_toDigits (by decide) (by decide)

theorem all_isDigit_replicate (k : ℕ) : (List.replicate k '0').all Char.isDigit = true :=
  List.all_eq_true.2 fun _ h => List.eq_of_mem_replicate h ▸ rfl

theorem ofDigitChars_zeros_append (k n : ℕ) :
    Nat.ofDigitChars 10 (List.replicate k '0' ++ Nat.toDigits 10 n) 0 = n := by
  rw [Nat.ofDigitChars_append, Nat.ofDigitChars_replicate_zero, Nat.mul_zero,
    Nat.ofDigitChars_ten_toDigits]

/-- Digits are those of their value, after zeros. -/
theorem eq_zeros_append (h : ds.all Char.isDigit = true) (hne : ds ≠ []) :
    ds = List.replicate (ds.length - (Nat.toDigits 10 (Nat.ofDigitChars 10 ds 0)).length) '0' ++
      Nat.toDigits 10 (Nat.ofDigitChars 10 ds 0) := by
  have hle : (Nat.toDigits 10 (Nat.ofDigitChars 10 ds 0)).length ≤ ds.length :=
    (Nat.length_toDigits_le_iff (by decide) (List.length_pos_iff.2 hne)).2 (ofDigitChars_lt h)
  refine eq_of_ofDigitChars_eq h ?_ ?_ (ofDigitChars_zeros_append _ _).symm
  · rw [List.all_append, all_isDigit_replicate, all_isDigit_toDigits, Bool.and_true]
  · rw [List.length_append, List.length_replicate]
    omega

end Decimal
