import Mathlib.Tactic.Ring
import Mathlib.Tactic.Linarith

/-!
# Rounding

Doubles are multiples of the least positive one, so a sum of doubles can be told
by a natural number (and a sign), and rounding it is a function on naturals:

* `nearest n k`: the integer next to `n / 2 ^ k`, a half going to the even side;
* `rounded n`: the number next to `n` with no more than `53` significant bits.

`rounded` respects the order (`rounded_mono`) and keeps the numbers that need no
rounding (`rounded_mul_pow`). The shifts of the float model, which collect the bits
shifted out into two flags, compute `nearest` (`roundedMantissa_shift`).
-/

namespace GraphScript.Double

open Float.Model.UnpackedFloat

/-- The integer next to `n / 2 ^ k`; a half goes to the even side. -/
def nearest (n k : ℕ) : ℕ :=
  if 2 * (n % 2 ^ k) < 2 ^ k then n / 2 ^ k
  else if 2 * (n % 2 ^ k) = 2 ^ k then n / 2 ^ k + n / 2 ^ k % 2
  else n / 2 ^ k + 1

/-- The number of low bits that rounding clears. -/
def excess (n : ℕ) : ℕ :=
  n.log2 + 1 - 53

/-- The number next to `n` with no more than `53` significant bits. -/
def rounded (n : ℕ) : ℕ :=
  nearest n (excess n) * 2 ^ excess n

theorem div_le_nearest (n k : ℕ) : n / 2 ^ k ≤ nearest n k := by
  rw [nearest]
  split_ifs <;> omega

theorem nearest_le_div_succ (n k : ℕ) : nearest n k ≤ n / 2 ^ k + 1 := by
  rw [nearest]
  split_ifs <;> omega

theorem nearest_mul_pow (n k : ℕ) : nearest (n * 2 ^ k) k = n := by
  have hk : 0 < 2 ^ k := Nat.two_pow_pos k
  simp [nearest, Nat.mul_mod_left, Nat.mul_div_cancel n hk]

/-- Rounding respects the order, at any one position. -/
theorem nearest_mono {n n' : ℕ} (k : ℕ) (h : n ≤ n') : nearest n k ≤ nearest n' k := by
  rcases Nat.lt_or_ge (n / 2 ^ k) (n' / 2 ^ k) with hlt | hge
  · exact (nearest_le_div_succ n k).trans (le_trans hlt (div_le_nearest n' k))
  · -- Between the same two integers, the remainders decide.
    have hdiv : n / 2 ^ k = n' / 2 ^ k := Nat.le_antisymm (Nat.div_le_div_right h) hge
    have hmod : n % 2 ^ k ≤ n' % 2 ^ k := by
      have h₁ := Nat.div_add_mod n (2 ^ k)
      have h₂ := Nat.div_add_mod n' (2 ^ k)
      rw [hdiv] at h₁
      omega
    rw [nearest, nearest, hdiv]
    split_ifs <;> omega

/-- Rounding depends on the position of a bit relative to the last bit kept only. -/
theorem nearest_scale (n k j : ℕ) : nearest (n * 2 ^ j) (k + j) = nearest n k := by
  have hj : 0 < 2 ^ j := Nat.two_pow_pos j
  have hdiv : n * 2 ^ j / 2 ^ (k + j) = n / 2 ^ k := by
    rw [pow_add, Nat.mul_div_mul_right _ _ hj]
  have hmod : n * 2 ^ j % 2 ^ (k + j) = n % 2 ^ k * 2 ^ j := by
    rw [pow_add, Nat.mul_mod_mul_right]
  have hlt : 2 * (n % 2 ^ k * 2 ^ j) < 2 ^ (k + j) ↔ 2 * (n % 2 ^ k) < 2 ^ k := by
    rw [pow_add, ← mul_assoc]
    exact Nat.mul_lt_mul_right hj
  have heq : 2 * (n % 2 ^ k * 2 ^ j) = 2 ^ (k + j) ↔ 2 * (n % 2 ^ k) = 2 ^ k := by
    rw [pow_add, ← mul_assoc]
    exact Nat.mul_left_inj hj.ne'
  simp only [nearest, hdiv, hmod, hlt, heq]

/-! ### Significant bits -/

theorem div_excess_lt (n : ℕ) : n / 2 ^ excess n < 2 ^ 53 := by
  rw [Nat.div_lt_iff_lt_mul (Nat.two_pow_pos _), ← pow_add]
  exact Nat.lt_log2_self.trans_le (Nat.pow_le_pow_right two_pos (by rw [excess]; omega))

theorem nearest_excess_le (n : ℕ) : nearest n (excess n) ≤ 2 ^ 53 :=
  (nearest_le_div_succ _ _).trans (div_excess_lt n)

/-- Where bits are cleared, all `53` bits that are kept are significant. -/
theorem le_nearest_excess {n : ℕ} (h : 0 < excess n) : 2 ^ 52 ≤ nearest n (excess n) := by
  have hn : n ≠ 0 := by
    rintro rfl
    simp [excess] at h
  refine le_trans ?_ (div_le_nearest n (excess n))
  rw [Nat.le_div_iff_mul_le (Nat.two_pow_pos _), ← pow_add]
  refine le_trans (Nat.pow_le_pow_right two_pos ?_) (Nat.log2_self_le hn)
  rw [excess] at h ⊢
  omega

theorem nearest_excess_pos {n : ℕ} (hn : 0 < n) : 0 < nearest n (excess n) := by
  rcases Nat.eq_zero_or_pos (excess n) with h | h
  · rw [h]
    exact lt_of_lt_of_le (by simpa using hn) (div_le_nearest n 0)
  · exact lt_of_lt_of_le (by norm_num) (le_nearest_excess h)

theorem excess_mono {n n' : ℕ} (h : n ≤ n') : excess n ≤ excess n' := by
  rcases Nat.eq_zero_or_pos n with rfl | hn
  · simp [excess]
  · have hlog : n.log2 ≤ n'.log2 :=
      (Nat.le_log2 (by omega)).2 ((Nat.log2_self_le hn.ne').trans h)
    rw [excess, excess]
    omega

/-- Rounding respects the order. -/
theorem rounded_mono {n n' : ℕ} (h : n ≤ n') : rounded n ≤ rounded n' := by
  rcases (excess_mono h).eq_or_lt with heq | hlt
  · rw [rounded, rounded, heq]
    exact Nat.mul_le_mul_right _ (nearest_mono _ h)
  · -- A power of two separates the two results.
    calc rounded n ≤ 2 ^ 53 * 2 ^ excess n := Nat.mul_le_mul_right _ (nearest_excess_le n)
      _ = 2 ^ 52 * 2 ^ (excess n + 1) := by ring
      _ ≤ 2 ^ 52 * 2 ^ excess n' := Nat.mul_le_mul_left _ (Nat.pow_le_pow_right two_pos hlt)
      _ ≤ rounded n' := Nat.mul_le_mul_right _ (le_nearest_excess (by omega))

theorem log2_mul_pow {m : ℕ} (hm : 0 < m) (k : ℕ) : (m * 2 ^ k).log2 = m.log2 + k := by
  have hpow : 0 < 2 ^ k := Nat.two_pow_pos k
  rw [Nat.log2_eq_iff (Nat.mul_pos hm hpow).ne', pow_add, add_right_comm, pow_add _ _ k]
  exact ⟨Nat.mul_le_mul_right _ (Nat.log2_self_le hm.ne'),
    Nat.mul_lt_mul_of_pos_right Nat.lt_log2_self hpow⟩

/-- A number that has `53` significant bits at most is kept. -/
theorem rounded_mul_pow {m : ℕ} (hm : m < 2 ^ 53) (k : ℕ) : rounded (m * 2 ^ k) = m * 2 ^ k := by
  rcases Nat.eq_zero_or_pos m with rfl | hpos
  · simp [rounded, nearest]
  have hlog : m.log2 < 53 := (Nat.log2_lt hpos.ne').2 hm
  have hle : excess (m * 2 ^ k) ≤ k := by
    rw [excess, log2_mul_pow hpos]
    omega
  obtain ⟨d, hd⟩ := Nat.exists_eq_add_of_le hle
  have hsplit : m * 2 ^ k = m * 2 ^ d * 2 ^ excess (m * 2 ^ k) := by
    rw [mul_assoc, ← pow_add, add_comm d, ← hd]
  rw [rounded]
  generalize excess (m * 2 ^ k) = t at hsplit
  rw [hsplit, nearest_mul_pow]

/-! ### Shifts with flags -/

/-- The flags after a shift by `k`: whether half a unit at least, and whether anything
    below the half, was shifted out. -/
theorem shift_eq (n k : ℕ) : (ExtendedMantissa.mk n false false) >>> k =
    ⟨n / 2 ^ k, decide (2 ^ k ≤ 2 * (n % 2 ^ k)), decide (2 * (n % 2 ^ k) % 2 ^ k ≠ 0)⟩ := by
  induction k with
  | zero => simp [HShiftRight.hShiftRight, Nat.repeat, Nat.mod_one]
  | succ k ih =>
    change ((ExtendedMantissa.mk n false false) >>> k).shiftRightOne = _
    rw [ih]
    have hpow : 2 ^ (k + 1) = 2 * 2 ^ k := by ring
    have hlt : n % 2 ^ k < 2 ^ k := Nat.mod_lt _ (Nat.two_pow_pos k)
    have hmod : n % 2 ^ (k + 1) = n % 2 ^ k + 2 ^ k * (n / 2 ^ k % 2) := by
      rw [pow_succ, Nat.mod_mul]
    have hrest : 2 * (n % 2 ^ (k + 1)) % 2 ^ (k + 1) = 2 * (n % 2 ^ k) := by
      rw [hpow, Nat.mul_mod_mul_left, ← hpow, Nat.mod_mod_of_dvd _ (pow_dvd_pow 2 k.le_succ)]
    have hbit : n / 2 ^ k % 2 = 0 ∨ n / 2 ^ k % 2 = 1 := Nat.mod_two_eq_zero_or_one _
    simp only [ExtendedMantissa.shiftRightOne, ExtendedMantissa.mk.injEq]
    refine ⟨by rw [Nat.div_div_eq_div_mul, pow_succ], ?_, ?_⟩
    · rw [hmod, hpow]
      rcases hbit with hbit | hbit
      · simp [hbit]
        omega
      · simp [hbit]
    · rw [hrest]
      rcases Nat.eq_zero_or_pos (n % 2 ^ k) with hzero | hpos
      · simp [hzero]
      · rcases Nat.lt_or_ge (2 * (n % 2 ^ k)) (2 ^ k) with hhalf | hhalf
        · simp [Nat.mod_eq_of_lt hhalf, hpos.ne']
        · simp [hhalf, hpos.ne']

/-- Shifting with flags and rounding by them is rounding to the nearest. -/
theorem roundedMantissa_shift (n k : ℕ) :
    ((ExtendedMantissa.mk n false false) >>> k).roundedMantissa = nearest n k := by
  have hlt : n % 2 ^ k < 2 ^ k := Nat.mod_lt _ (Nat.two_pow_pos k)
  rw [shift_eq]
  rcases Nat.lt_or_ge (2 * (n % 2 ^ k)) (2 ^ k) with hhalf | hhalf
  · have hflag : decide (2 ^ k ≤ 2 * (n % 2 ^ k)) = false := by simpa using hhalf
    rw [hflag, nearest, if_pos hhalf]
    cases decide (2 * (n % 2 ^ k) % 2 ^ k ≠ 0) <;> rfl
  · have hflag : decide (2 ^ k ≤ 2 * (n % 2 ^ k)) = true := by simpa using hhalf
    have hrest : 2 * (n % 2 ^ k) % 2 ^ k = 2 * (n % 2 ^ k) - 2 ^ k := by
      rw [Nat.mod_eq_sub_mod hhalf, Nat.mod_eq_of_lt (by omega)]
    rw [hflag, hrest, nearest, if_neg hhalf.not_gt]
    split_ifs with heq
    · rw [heq, Nat.sub_self]
      rfl
    · have hne : 2 * (n % 2 ^ k) - 2 ^ k ≠ 0 := by omega
      rw [decide_eq_true hne]
      rfl

end GraphScript.Double
