import GraphScript.Proofs.Double.Sum

/-!
# Natural numbers as doubles

The double of a natural number is the number in units, rounded (`units_ofNat`): what is
next to it among the doubles. Numbers that a machine counts to are so small against the
largest finite double that they vanish beside it, and adding one to a finite double leaves
it finite (`isFinite_add_ofNat`).
-/

namespace GraphScript.Double

open Float.Model Float.Model.UnpackedFloat

/-- A product is rounded without making its significand longer first, which changes nothing
    if it is long enough. -/
theorem packsTo_roundWithAccuracy (s : Sign) {m j : ℕ} (hm : 0 < m) (h : j ≤ excess (m * 2 ^ j)) :
    PacksTo (roundWithAccuracy Format.binary64 s m (j - 1074) .exact)
      (roundedUnits (s.apply (m * 2 ^ j : ℕ))) := by
  have hshift : (((j : ℤ) - 1074) - ((excess (m * 2 ^ j) : ℤ) - 1074)).toNat = 0 := by omega
  have hround : UnpackedFloat.round Format.binary64 s m (j - 1074) =
      roundWithAccuracy Format.binary64 s m (j - 1074) .exact := by
    simp only [UnpackedFloat.round, targetExponent_eq hm, decreaseExponent, hshift,
      Nat.shiftLeft_zero, Nat.cast_zero, sub_zero]
  exact hround ▸ packsTo_round s hm j

/-- Where all bits of a significand are significant, rounding clears nothing above them. -/
theorem excess_mul_pow {m : ℕ} (hfull : 2 ^ 52 ≤ m) (k : ℕ) : k ≤ excess (m * 2 ^ k) := by
  have hm : 0 < m := lt_of_lt_of_le (by norm_num) hfull
  have hlog : 52 ≤ m.log2 := (Nat.le_log2 hm.ne').2 hfull
  rw [excess, log2_mul_pow hm]
  omega

/-- How far two significands of a number may be apart. -/
theorem add_lt_of_mul_pow_eq {m m' a b k k' : ℕ} (hm : 2 ^ a ≤ m) (hm' : m' < 2 ^ b)
    (h : m * 2 ^ k = m' * 2 ^ k') : a + k < b + k' := by
  refine (Nat.pow_lt_pow_iff_right one_lt_two).1 ?_
  calc 2 ^ (a + k) = 2 ^ a * 2 ^ k := pow_add ..
    _ ≤ m * 2 ^ k := Nat.mul_le_mul_right _ hm
    _ = m' * 2 ^ k' := h
    _ < 2 ^ b * 2 ^ k' := Nat.mul_lt_mul_of_pos_right hm' (Nat.two_pow_pos k')
    _ = 2 ^ (b + k') := (pow_add ..).symm

/-- A positive number below `2 ^ 53` as it is unpacked: all its bits are significant. -/
theorem unpack_ofUInt64 {n : ℕ} (hpos : 0 < n) (hn : n < 2 ^ 53) :
    ∃ (m j : ℕ) (hm : 0 < m), (Float.Model.ofUInt64 n.toUInt64).unpack =
      .finite .positive m (j - 1022) hm ∧ 2 ^ 52 ≤ m ∧ m * 2 ^ (j + 52) = n * 2 ^ 1074 := by
  have hsize : n.toUInt64.toNat = n := by
    rw [Nat.toUInt64_eq, UInt64.toNat_ofNat_of_lt' (hn.trans (by decide))]
  obtain ⟨m, e, hm, hround, hcanonical, hunits⟩ := round_eq .positive hpos 1074
  rw [rounded_mul_pow hn] at hunits
  have hleast := hcanonical.least
  generalize hk : (e + 1074).toNat = k at hunits
  have hlow := add_lt_of_mul_pow_eq (a := 0) hpos hcanonical.bits hunits.symm
  have hfull : 2 ^ 52 ≤ m := hcanonical.full.resolve_right (by omega)
  have hhigh := add_lt_of_mul_pow_eq hfull hn hunits
  refine ⟨m, (e + 1022).toNat, hm, ?_, hfull, ?_⟩
  · have hpack : Float.Model.ofUInt64 n.toUInt64 = Float.Model.pack (.finite .positive m e hm) := by
      rw [← hround]
      simp only [Float.Model.ofUInt64, UnpackedFloat.ofUInt64, UnpackedFloat.ofNat,
        UnpackedFloat.ofInt, UnpackedFloat.normalize, hsize,
        compare_gt_iff_gt.2 (Int.natCast_pos.2 hpos), Int.toNat_natCast]
      rfl
    rw [hpack, unpack_pack hcanonical, if_pos (by omega), finite.injEq]
    exact ⟨rfl, rfl, by omega⟩
  · rw [← hunits]
    congr 2
    omega

/-- A large number is made a double by way of a product with a power of ten. -/
theorem packsTo_ofScientific {n : ℕ} (hn : 2 ^ 53 ≤ n) :
    PacksTo (UnpackedFloat.ofScientific Format.binary64 n 0)
      (roundedUnits (Sign.positive.apply (n * 2 ^ 1074 : ℕ))) := by
  have hlarge : ¬(0 : ℤ) > 2 ^ Format.binary64.exponentBits := not_lt.2 (by positivity)
  have hsmall : ¬(0 : ℤ) < -(2 ^ Format.binary64.exponentBits + n.log2) :=
    not_lt.2 (neg_nonpos.2 (by positivity))
  have hpos : 0 < n := lt_of_lt_of_le (by norm_num) hn
  have hshift : 0 < n * 2 ^ 53 := Nat.mul_pos hpos (by norm_num)
  have hunits : n * 2 ^ 53 * 2 ^ 1021 = n * 2 ^ 1074 := by rw [mul_assoc, ← pow_add]
  have hbits : Format.binary64.mantissaBits = 53 := rfl
  have hexponent : -((53 : ℕ) : ℤ) = ((1021 : ℕ) : ℤ) - 1074 := by norm_num
  rw [UnpackedFloat.ofScientific, dif_neg hpos.ne', if_neg hlarge, if_neg hsmall, if_pos le_rfl]
  simp only [UnpackedFloat.mul, Nat.shiftLeft_eq, Int.toNat_zero, pow_zero, mul_one, add_zero,
    hbits, hexponent]
  rw [← hunits]
  exact packsTo_roundWithAccuracy .positive hshift (excess_mul_pow (by omega) 1021)

/-- A small number is multiplied by one. -/
theorem packsTo_mul_one {n : ℕ} (hn : n < 2 ^ 53) :
    PacksTo (UnpackedFloat.mul Format.binary64 (Float.Model.ofUInt64 n.toUInt64).unpack
        (.finite .positive (2 ^ 52) (-52) (by decide)))
      (roundedUnits (Sign.positive.apply (n * 2 ^ 1074 : ℕ))) := by
  rcases Nat.eq_zero_or_pos n with rfl | hpos
  · refine ⟨rfl, ?_⟩
    rw [zero_mul, Sign.apply, Nat.cast_zero, roundedUnits, Int.sign_zero, zero_mul]
    rfl
  · obtain ⟨m, j, hm, hunpack, hfull, hunits⟩ := unpack_ofUInt64 hpos hn
    have hexponent : (j : ℤ) - 1022 + -52 = j - 1074 := by ring
    rw [hunpack, ← hunits, add_comm j, pow_add, ← mul_assoc]
    simp only [UnpackedFloat.mul, hexponent]
    exact packsTo_roundWithAccuracy .positive (Nat.mul_pos hm (by norm_num))
      (excess_mul_pow (by omega) j)

/-- The double of a natural number is the number in units, rounded. -/
theorem units_ofNat (n : ℕ) :
    (Float.ofNat n).isNaN = false ∧ units (Float.ofNat n) = roundedUnits (n * units 1.0) := by
  have hsum : (n : ℤ) * units 1.0 = Sign.positive.apply (n * 2 ^ 1074 : ℕ) := by
    rw [units_one, Sign.apply, Nat.cast_mul]
  have hscientific : Float.ofNat n = Float.ofScientific n false 0 := rfl
  rw [hsum, hscientific, Float.ofScientific]
  rcases Nat.lt_or_ge n (2 ^ 53) with hsmall | hlarge
  · rw [dif_pos ⟨hsmall, by norm_num⟩]
    have hone : (Float.ofBits 0x3FF0000000000000).toModel.unpack =
      .finite .positive (2 ^ 52) (-52) (by decide) := rfl
    obtain ⟨hnan, hunits⟩ := packsTo_mul_one hsmall
    rw [← hone] at hnan hunits
    exact ⟨hnan, hunits⟩
  · rw [dif_neg (fun h => h.1.not_ge hlarge)]
    obtain ⟨hnan, hunits⟩ := packsTo_ofScientific hlarge
    exact ⟨hnan, hunits⟩

/-! ### Small summands -/

/-- Less than half of the last bit that is kept does not matter. -/
theorem rounded_add_small {m d k : ℕ} (hfull : 2 ^ 52 ≤ m) (hbits : m < 2 ^ 53)
    (hd : 2 * d < 2 ^ k) : rounded (m * 2 ^ k + d) = m * 2 ^ k := by
  have hpow : 0 < 2 ^ k := Nat.two_pow_pos k
  have hlog : (m * 2 ^ k + d).log2 = 52 + k := by
    refine (Nat.log2_eq_iff (by positivity)).2 ⟨?_, ?_⟩
    · rw [pow_add]
      exact (Nat.mul_le_mul_right _ hfull).trans (Nat.le_add_right _ _)
    · calc m * 2 ^ k + d < m * 2 ^ k + 2 ^ k := by omega
        _ = (m + 1) * 2 ^ k := by ring
        _ ≤ 2 ^ 53 * 2 ^ k := Nat.mul_le_mul_right _ hbits
        _ = 2 ^ (52 + k + 1) := by ring
  have hexcess : excess (m * 2 ^ k + d) = k := by
    rw [excess, hlog]
    omega
  have hmod : (m * 2 ^ k + d) % 2 ^ k = d := by
    rw [Nat.mul_add_mod_self_right, Nat.mod_eq_of_lt (by omega)]
  have hdiv : (m * 2 ^ k + d) / 2 ^ k = m := by
    rw [Nat.mul_comm, Nat.mul_add_div hpow, Nat.div_eq_of_lt (by omega), add_zero]
  rw [rounded, hexcess, nearest, hmod, if_pos hd, hdiv]

/-- A number that is less than the infinite doubles in units is finite. -/
theorem isFinite_of_units {x : Float} (hnan : x.isNaN = false) (hlow : -(limit : ℤ) < units x)
    (hhigh : units x < limit) : x.isFinite = true := by
  change x.toModel.unpack.isNaN = false at hnan
  change x.toModel.unpack.isFinite = true
  rw [units] at hlow hhigh
  generalize x.toModel.unpack = u at *
  rcases u with s | _ | s | ⟨s, m, e, hm⟩
  case zero | finite => rfl
  case notANumber => cases hnan
  case infinity => cases s <;> simp only [unitsOf, Sign.apply] at hlow hhigh <;> omega

/-- The largest finite double in units: all of its `53` bits are set. -/
def largest : ℕ :=
  (2 ^ 53 - 1) * 2 ^ (limitExponent - 53)

theorem units_le_largest {x : Float} (hx : x.isFinite = true) : units x ≤ largest := by
  have hcanonical := isCanonical_unpack x.toModel
  change x.toModel.unpack.isFinite = true at hx
  rw [units]
  generalize x.toModel.unpack = u at *
  rcases u with s | _ | s | ⟨s, m, e, hm⟩
  case infinity | notANumber => cases hx
  case zero => exact Int.natCast_nonneg _
  case finite =>
    have hle : m * 2 ^ (e + 1074).toNat ≤ largest := by
      refine Nat.mul_le_mul (Nat.le_sub_one_of_lt hcanonical.1.bits)
        (Nat.pow_le_pow_right two_pos ?_)
      have := hcanonical.2
      rw [limitExponent]
      omega
    rw [unitsOf_finite hcanonical]
    cases s
    · exact (Int.neg_nonpos_of_nonneg (Int.natCast_nonneg _)).trans (Int.natCast_nonneg _)
    · exact Int.ofNat_le.2 hle

theorem largest_lt_limit : largest < limit := by
  have hexponent : 53 + (limitExponent - 53) = limitExponent := by
    rw [limitExponent]
  calc largest < 2 ^ 53 * 2 ^ (limitExponent - 53) :=
        Nat.mul_lt_mul_of_pos_right (by norm_num) (Nat.two_pow_pos _)
    _ = limit := by rw [← pow_add, hexponent, limit]

/-- A finite double stays finite if an amount is added that is less than half of the last bit
    of the largest one. -/
theorem isFinite_add_small {x y : Float} (hx : x.isFinite = true) (hy : y.isFinite = true)
    {d : ℕ} (hd : 2 * d < 2 ^ (limitExponent - 53)) (hlow : 0 ≤ units y) (hhigh : units y ≤ d) :
    (x + y).isFinite = true := by
  obtain ⟨hnan, hunits⟩ := units_add hx hy
  refine isFinite_of_units hnan ?_ ?_
  · have hkept : roundedUnits (units x) = units x := roundedUnits_unitsOf (isCanonical_unpack _)
    calc -(limit : ℤ) < units x := (unitsOf_mem_limits (isCanonical_unpack x.toModel) hx).1
      _ = roundedUnits (units x) := hkept.symm
      _ ≤ roundedUnits (units x + units y) := roundedUnits_mono (by omega)
      _ = units (x + y) := hunits.symm
  · have hsum : units x + units y ≤ Sign.positive.apply (largest + d : ℕ) := by
      rw [Sign.apply, Nat.cast_add]
      exact add_le_add (units_le_largest hx) hhigh
    have hrounded : rounded (largest + d) = largest :=
      rounded_add_small (by norm_num) (by norm_num) hd
    calc units (x + y) = roundedUnits (units x + units y) := hunits
      _ ≤ roundedUnits (Sign.positive.apply (largest + d : ℕ)) := roundedUnits_mono hsum
      _ = largest := by
          rw [roundedUnits_apply, hrounded, min_eq_right largest_lt_limit.le, Sign.apply]
      _ < limit := Int.ofNat_lt.2 largest_lt_limit

theorem rounded_le_pow {n b : ℕ} (hn : n ≤ 2 ^ b) (k : ℕ) : rounded (n * 2 ^ k) ≤ 2 ^ (b + k) := by
  have hpow : n * 2 ^ k ≤ 1 * 2 ^ (b + k) := by
    rw [one_mul, pow_add]
    exact Nat.mul_le_mul_right _ hn
  calc rounded (n * 2 ^ k) ≤ rounded (1 * 2 ^ (b + k)) := rounded_mono hpow
    _ = 2 ^ (b + k) := by rw [rounded_mul_pow (by norm_num), one_mul]

theorem units_ofNat_mem {n b : ℕ} (hn : n ≤ 2 ^ b) :
    0 ≤ units (Float.ofNat n) ∧ units (Float.ofNat n) ≤ (2 ^ (b + 1074) : ℕ) := by
  have hunits : (n : ℤ) * units 1.0 = Sign.positive.apply (n * 2 ^ 1074 : ℕ) := by
    rw [units_one, Sign.apply, Nat.cast_mul]
  rw [(units_ofNat n).2, hunits, roundedUnits_apply, Sign.apply]
  exact ⟨Int.natCast_nonneg _, Int.ofNat_le.2 ((min_le_right _ _).trans (rounded_le_pow hn _))⟩

theorem isFinite_ofNat {n b : ℕ} (hn : n ≤ 2 ^ b) (hb : b + 1074 < limitExponent) :
    (Float.ofNat n).isFinite = true := by
  obtain ⟨hlow, hhigh⟩ := units_ofNat_mem hn
  have hlimit : 2 ^ (b + 1074) < limit := Nat.pow_lt_pow_right one_lt_two hb
  exact isFinite_of_units (units_ofNat n).1
    ((neg_lt_zero.2 (Int.natCast_pos.2 limit_pos)).trans_le hlow)
    (hhigh.trans_lt (Int.ofNat_lt.2 hlimit))

/-- Adding a natural number to a finite double leaves it finite, unless the number is of the
    size of the last bit of the largest double. -/
theorem isFinite_add_ofNat {x : Float} (hx : x.isFinite = true) {n b : ℕ} (hn : n ≤ 2 ^ b)
    (hb : b + 1128 < limitExponent) : (x + Float.ofNat n).isFinite = true := by
  have hfinite : (Float.ofNat n).isFinite = true := isFinite_ofNat hn (by omega)
  obtain ⟨hlow, hhigh⟩ := units_ofNat_mem hn
  refine isFinite_add_small hx hfinite ?_ hlow hhigh
  rw [← pow_succ']
  exact Nat.pow_lt_pow_right one_lt_two (by omega)

end GraphScript.Double
