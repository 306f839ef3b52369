import GraphScript.Proofs.Double.OfNat

/-!
# Integers as doubles

A double is `Whole` if it is an integer, where zero has no sign. An integer has at most one such
double (`Whole.unique`), as a finite double is told by what it unpacks to (`eq_of_unpack`), and
that by its units (`eq_of_unitsOf`). So what is known of units is known of doubles:

* the integers of `53` bits have a double (`whole_ofInt`);
* their sums and differences are exact (`Whole.add`, `Whole.exact_sub`), and so is counting them
  with 64 bits (`toNat_toUInt64`);
* products with a power of ten are rounded once (`units_ofScientific`).
-/

namespace GraphScript.Double

open Float.Model Float.Model.UnpackedFloat

/-! ### Bits -/

section Bits

variable (b : BitVec 64)

theorem toNat_unpackMantissa : (@unpackMantissa Format.binary64 b).toNat = b.toNat % 2 ^ 52 := by
  change (b.extractLsb 51 0).toNat = _
  simp [BitVec.extractLsb]

theorem toNat_unpackExponent :
    (@unpackExponent Format.binary64 b).toNat = b.toNat / 2 ^ 52 % 2 ^ 11 := by
  change (b.extractLsb 62 52).toNat = _
  simp [BitVec.extractLsb, Nat.shiftRight_eq_div_pow]

theorem toNat_unpackSign : (@unpackSign Format.binary64 b).toNat = b.toNat / 2 ^ 63 := by
  change (b.extractLsb 63 63).toNat = _
  simp [BitVec.extractLsb, Nat.shiftRight_eq_div_pow]
  omega

variable {b}

theorem ofBitVec_eq_positive_iff (c : BitVec 1) : Sign.ofBitVec c = .positive ↔ c.toNat = 0 := by
  rw [Sign.ofBitVec]
  split_ifs with h
  · exact iff_of_true rfl (congrArg BitVec.toNat h)
  · exact iff_of_false (by simp) fun hzero => h (BitVec.eq_of_toNat_eq hzero)

/-- The three parts of a packed finite double, which is given as a number: its sign, its exponent
    and its significand without the leading bit. -/
structure IsPacked (n : ℕ) (s : Sign) (m : ℕ) (e : ℤ) : Prop where
  sign : s = .positive ↔ n / 2 ^ 63 = 0
  exponent : n / 2 ^ 52 % 2 ^ 11 = if m < 2 ^ 52 then 0 else (e + 1075).toNat
  mantissa : n % 2 ^ 52 = m % 2 ^ 52

theorem isPacked_of_unpack_zero {s : Sign}
    (h : UnpackedFloat.unpack Format.binary64 b = .zero s) : IsPacked b.toNat s 0 0 := by
  rw [UnpackedFloat.unpack] at h
  dsimp only at h
  split_ifs at h with hinf hnan hsub hzero
  cases h
  refine ⟨?_, ?_, ?_⟩
  · rw [ofBitVec_eq_positive_iff, toNat_unpackSign]
  · rw [if_pos (by norm_num), ← toNat_unpackExponent, hsub]
    rfl
  · rw [← toNat_unpackMantissa, hzero]
    rfl

theorem isPacked_of_unpack {s : Sign} {m : ℕ} {e : ℤ} {hm : 0 < m}
    (h : UnpackedFloat.unpack Format.binary64 b = .finite s m e hm) : IsPacked b.toNat s m e := by
  have hmantissa : (@unpackMantissa Format.binary64 b).toNat < 2 ^ 52 := BitVec.isLt _
  have hbias : Format.binary64.exponentBias = 1023 := rfl
  rw [UnpackedFloat.unpack] at h
  dsimp only at h
  split_ifs at h with hinf hnan hsub hzero <;> cases h
  · -- A subnormal number has no leading bit, and its exponent is packed as zero.
    refine ⟨?_, ?_, ?_⟩
    · rw [ofBitVec_eq_positive_iff, toNat_unpackSign]
    · rw [if_pos hmantissa, ← toNat_unpackExponent, hsub]
      rfl
    · rw [← toNat_unpackMantissa, Nat.mod_eq_of_lt hmantissa]
  · refine ⟨?_, ?_, ?_⟩
    · rw [ofBitVec_eq_positive_iff, toNat_unpackSign]
    · rw [toNat_one_append, if_neg (by omega), ← toNat_unpackExponent, hbias]
      omega
    · rw [toNat_one_append, ← toNat_unpackMantissa, Nat.add_mod_left, Nat.mod_eq_of_lt hmantissa]

theorem IsPacked.unique {n n' : ℕ} (hn : n < 2 ^ 64) (hn' : n' < 2 ^ 64) {s : Sign} {m : ℕ} {e : ℤ}
    (h : IsPacked n s m e) (h' : IsPacked n' s m e) : n = n' := by
  -- One bit, eleven bits and `52` bits are all that there are.
  have hsign : n / 2 ^ 63 = 0 ↔ n' / 2 ^ 63 = 0 := h.sign.symm.trans h'.sign
  have hexponent := h.exponent.trans h'.exponent.symm
  have hmantissa := h.mantissa.trans h'.mantissa.symm
  omega

end Bits

/-- A finite double is told by what it unpacks to. -/
theorem eq_of_unpack {x y : Float} (hx : x.isFinite = true)
    (h : x.toModel.unpack = y.toModel.unpack) : x = y := by
  suffices htoNat : x.toModel.toBits.toBitVec.toNat = y.toModel.toBits.toBitVec.toNat by
    have hbits := UInt64.toBitVec_inj.1 (BitVec.eq_of_toNat_eq htoNat)
    obtain ⟨⟨bits, hvalid⟩⟩ := x
    obtain ⟨⟨bits', hvalid'⟩⟩ := y
    obtain rfl : bits = bits' := hbits
    rfl
  have hlt (z : Float) : z.toModel.toBits.toBitVec.toNat < 2 ^ 64 := BitVec.isLt _
  change x.toModel.unpack.isFinite = true at hx
  cases hunpack : x.toModel.unpack with
  | notANumber | infinity =>
    rw [hunpack] at hx
    cases hx
  | zero s =>
    exact (isPacked_of_unpack_zero hunpack).unique (hlt x) (hlt y)
      (isPacked_of_unpack_zero (h.symm.trans hunpack))
  | finite s m e hm =>
    exact (isPacked_of_unpack hunpack).unique (hlt x) (hlt y)
      (isPacked_of_unpack (h.symm.trans hunpack))

/-! ### Signs -/

/-- Packing loses nothing of what is canonical. -/
theorem unpack_pack_of_isCanonical {u : UnpackedFloat} (h : IsCanonical u) :
    (Float.Model.pack u).unpack = u := by
  cases u with
  | notANumber => rfl
  | infinity s => exact unpack_pack_infinity s
  | zero s => exact unpack_pack_zero s
  | finite s m e hm => rw [unpack_pack h.1, if_pos h.2]

theorem unpack_neg (x : Float) : (-x).toModel.unpack = x.toModel.unpack.neg := by
  refine unpack_pack_of_isCanonical ?_
  have h := isCanonical_unpack x.toModel
  generalize x.toModel.unpack = u at h ⊢
  cases u with
  | notANumber | infinity | zero => trivial
  | finite s m e hm => exact h

theorem unpack_abs (x : Float) : x.abs.toModel.unpack = x.toModel.unpack.abs := by
  refine unpack_pack_of_isCanonical ?_
  have h := isCanonical_unpack x.toModel
  generalize x.toModel.unpack = u at h ⊢
  cases u with
  | notANumber | infinity | zero => trivial
  | finite s m e hm => exact h

theorem apply_neg (s : Sign) (n : ℤ) : (-s).apply n = -s.apply n := by
  cases s
  · exact (neg_neg n).symm
  · rfl

theorem unitsOf_neg (u : UnpackedFloat) : unitsOf u.neg = -unitsOf u := by
  cases u with
  | notANumber | zero => rfl
  | infinity s => exact apply_neg s _
  | finite s m e hm => exact apply_neg s _

theorem units_neg (x : Float) : units (-x) = -units x := by
  rw [units, unpack_neg, unitsOf_neg, units]

theorem isFinite_neg (x : Float) : (-x).isFinite = x.isFinite := by
  change (-x).toModel.unpack.isFinite = x.toModel.unpack.isFinite
  rw [unpack_neg]
  cases x.toModel.unpack <;> rfl

theorem abs_apply (s : Sign) (n : ℕ) : |s.apply n| = n := by
  cases s
  · rw [Sign.apply, abs_neg, Nat.abs_cast]
  · rw [Sign.apply, Nat.abs_cast]

theorem units_abs (x : Float) : units x.abs = |units x| := by
  rw [units, units, unpack_abs]
  cases x.toModel.unpack with
  | notANumber | zero => rfl
  | infinity s => exact (abs_apply s _).symm
  | finite s m e hm => exact (abs_apply s _).symm

theorem isFinite_abs (x : Float) : x.abs.isFinite = x.isFinite := by
  change x.abs.toModel.unpack.isFinite = x.toModel.unpack.isFinite
  rw [unpack_abs]
  cases x.toModel.unpack <;> rfl

/-- Subtracting a double is adding its negative. -/
theorem sub_eq_add_neg (x y : Float) : x - y = x + -y := by
  have hunpacked (u v : UnpackedFloat) :
      UnpackedFloat.sub Format.binary64 u v = UnpackedFloat.add Format.binary64 u v.neg := by
    cases u with
    | notANumber => rfl
    | infinity s | zero s => cases v <;> rfl
    | finite s m e hm =>
      cases v with
      | notANumber | infinity | zero => rfl
      | finite s' m' e' hm' =>
        simp only [UnpackedFloat.sub, UnpackedFloat.neg, UnpackedFloat.add, apply_neg,
          Int.sub_eq_add_neg]
  change Float.ofModel (Float.Model.pack (UnpackedFloat.sub Format.binary64 x.toModel.unpack
    y.toModel.unpack)) = _
  rw [hunpacked, ← unpack_neg]
  rfl

/-- The difference of finite doubles is a number, and its units are the difference of theirs,
    rounded. -/
theorem units_sub {x y : Float} (hx : x.isFinite = true) (hy : y.isFinite = true) :
    (x - y).isNaN = false ∧ units (x - y) = roundedUnits (units x - units y) := by
  obtain ⟨hnan, hunits⟩ := units_add hx ((isFinite_neg y).trans hy)
  rw [sub_eq_add_neg, hunits, units_neg]
  exact ⟨hnan, rfl⟩

/-! ### Signs of zeros -/

/-- What a sum of significands is rounded to is not the negative zero. -/
theorem unpack_normalize_ne (z : ℤ) (j : ℕ) :
    (Float.Model.pack (UnpackedFloat.normalize Format.binary64 z (j - 1074) .positive)).unpack ≠
      .zero .negative := by
  have hround (s : Sign) {m : ℕ} (hm : 0 < m) :
      (Float.Model.pack (UnpackedFloat.round Format.binary64 s m (j - 1074))).unpack ≠
        .zero .negative := by
    obtain ⟨m', e', hm', heq, hcanonical, -⟩ := round_eq s hm j
    rw [heq, unpack_pack hcanonical]
    split_ifs <;> simp
  rw [UnpackedFloat.normalize]
  rcases lt_trichotomy z 0 with hz | rfl | hz
  · rw [compare_lt_iff_lt.2 hz]
    exact hround .negative (by omega)
  · rw [compare_eq_iff_eq.2 rfl, unpack_pack_zero]
    simp
  · rw [compare_gt_iff_gt.2 hz]
    exact hround .positive (by omega)

/-- A sum is the negative zero only if one of the summands is. -/
theorem unpack_add_ne {u v : UnpackedFloat} (hu : IsCanonical u) (hv : IsCanonical v)
    (hfin : u.isFinite = true) (hfin' : v.isFinite = true)
    (hne : u ≠ .zero .negative) (hne' : v ≠ .zero .negative) :
    (Float.Model.pack (UnpackedFloat.add Format.binary64 u v)).unpack ≠ .zero .negative := by
  have hkept {u : UnpackedFloat} (hu : IsCanonical u) (hne : u ≠ .zero .negative) :
      (Float.Model.pack u).unpack ≠ .zero .negative := by
    rwa [unpack_pack_of_isCanonical hu]
  rcases u with s | _ | s | ⟨s, m, e, hm⟩
  case infinity | notANumber => cases hfin
  all_goals rcases v with s' | _ | s' | ⟨s', m', e', hm'⟩
  case zero.infinity | zero.notANumber | finite.infinity | finite.notANumber => cases hfin'
  case zero.zero =>
    -- Zeros of two signs add up to the positive one.
    cases s with
    | negative => exact absurd rfl hne
    | positive => cases s' <;> exact hkept (u := .zero .positive) trivial (by simp)
  case zero.finite => exact hkept hv hne'
  case finite.zero => exact hkept hu hne
  case finite.finite =>
    -- The sum is taken at the smaller exponent, which is one that a double may have.
    obtain ⟨j, hj⟩ : ∃ j : ℕ, min e e' = j - 1074 := by
      have hleast := hu.1.least
      have hleast' := hv.1.least
      exact ⟨(min e e' + 1074).toNat, by omega⟩
    simp only [UnpackedFloat.add, hj]
    exact unpack_normalize_ne _ j

/-! ### Integers -/

/-- Canonical pairs are unique, so what has the same units is the same, unless it is zero. -/
theorem eq_of_unitsOf {u v : UnpackedFloat} (hu : IsCanonical u) (hv : IsCanonical v)
    (hu' : u.isFinite = true) (hv' : v.isFinite = true) (h : unitsOf u = unitsOf v)
    (hzero : unitsOf u ≠ 0) : u = v := by
  rcases u with s | _ | s | ⟨s, m, e, hm⟩
  case infinity | notANumber => cases hu'
  case zero => exact absurd rfl hzero
  rcases v with s' | _ | s' | ⟨s', m', e', hm'⟩
  case infinity | notANumber => cases hv'
  case zero => exact absurd h hzero
  obtain ⟨n, hpos, -, hn, hunits⟩ := unitsOf_bounds hu
  obtain ⟨n', hpos', -, hn', hunits'⟩ := unitsOf_bounds hv
  rw [hunits, hunits'] at h
  -- Units compare like exponents and significands, so equal units leave no choice of these.
  have hcompare := compare_units hu.1 hv.1
  rw [← hn, ← hn'] at hcompare
  have hsame : s = s' ∧ n = n' := by
    cases s <;> cases s' <;> simp only [Sign.apply] at h
    · exact ⟨rfl, by omega⟩
    · omega
    · omega
    · exact ⟨rfl, by omega⟩
  obtain ⟨rfl, rfl⟩ := hsame
  rw [compare_eq_iff_eq.2 rfl, Ordering.then_eq_eq, compare_eq_iff_eq, compare_eq_iff_eq]
    at hcompare
  obtain ⟨rfl, rfl⟩ := hcompare
  rfl

theorem exists_zero_of_unitsOf {u : UnpackedFloat} (hu : IsCanonical u) (hu' : u.isFinite = true)
    (h : unitsOf u = 0) : ∃ s, u = .zero s := by
  rcases u with s | _ | s | ⟨s, m, e, hm⟩
  case infinity | notANumber => cases hu'
  case zero => exact ⟨s, rfl⟩
  case finite =>
    obtain ⟨n, hpos, -, -, hunits⟩ := unitsOf_bounds hu
    rw [hunits] at h
    cases s <;> simp only [Sign.apply] at h <;> omega

/-- A double that is an integer, where zero has no sign. -/
structure Whole (z : ℤ) (x : Float) : Prop where
  isFinite : x.isFinite = true
  units_eq : units x = z * units 1.0
  unsigned : x.toModel.unpack ≠ .zero .negative

theorem mul_units_one_ne_zero {z : ℤ} (hz : z ≠ 0) : z * units 1.0 ≠ 0 :=
  mul_ne_zero hz units_one_pos.ne'

/-- Integers of `53` bits are kept by rounding, and are finite. -/
theorem roundedUnits_mul_one {z : ℤ} (hz : z.natAbs < 2 ^ 53) :
    roundedUnits (z * units 1.0) = z * units 1.0 ∧
      -(limit : ℤ) < z * units 1.0 ∧ z * units 1.0 < limit := by
  obtain ⟨s, hs⟩ : ∃ s : Sign, z = s.apply z.natAbs := by
    rcases le_total 0 z with h | h
    · exact ⟨.positive, by rw [Sign.apply, Int.natAbs_of_nonneg h]⟩
    · exact ⟨.negative, by rw [Sign.apply, Int.ofNat_natAbs_of_nonpos h, neg_neg]⟩
  generalize z.natAbs = n at hs hz
  have hunits : z * units 1.0 = s.apply (n * 2 ^ 1074 : ℕ) := by
    rw [hs, units_one]
    cases s
    · rw [Sign.apply, Sign.apply, Nat.cast_mul, neg_mul]
    · rw [Sign.apply, Sign.apply, Nat.cast_mul]
  have hlimit : n * 2 ^ 1074 < limit := by
    have hle := mul_units_one_le (Nat.succ_le_of_lt hz)
    rw [units_one, ← Nat.cast_mul, Nat.cast_le] at hle
    have hstep : n * 2 ^ 1074 < (n + 1) * 2 ^ 1074 :=
      Nat.mul_lt_mul_of_pos_right n.lt_succ_self (by positivity)
    exact lt_of_lt_of_le hstep hle
  rw [hunits, roundedUnits_apply, rounded_mul_pow hz, min_eq_right hlimit.le]
  refine ⟨rfl, ?_⟩
  generalize n * 2 ^ 1074 = k at hlimit ⊢
  cases s <;> simp only [Sign.apply] <;> omega

namespace Whole

variable {z w : ℤ} {x y : Float}

theorem unpack_zero (h : Whole 0 x) : x.toModel.unpack = .zero .positive := by
  have hunits : unitsOf x.toModel.unpack = 0 := h.units_eq.trans (zero_mul _)
  obtain ⟨s, hs⟩ := exists_zero_of_unitsOf (isCanonical_unpack _) h.isFinite hunits
  cases s with
  | negative => exact absurd hs h.unsigned
  | positive => exact hs

/-- An integer has one double. -/
theorem unique (hx : Whole z x) (hy : Whole z y) : x = y := by
  refine eq_of_unpack hx.isFinite ?_
  by_cases hz : z = 0
  · subst hz
    rw [hx.unpack_zero, hy.unpack_zero]
  · have hne : unitsOf x.toModel.unpack ≠ 0 := hx.units_eq.trans_ne (mul_units_one_ne_zero hz)
    exact eq_of_unitsOf (isCanonical_unpack _) (isCanonical_unpack _) hx.isFinite hy.isFinite
      (hx.units_eq.trans hy.units_eq.symm) hne

/-- All there is to say of an integer other than zero are its units. -/
theorem of_units (hfin : x.isFinite = true) (hz : z ≠ 0) (h : units x = z * units 1.0) :
    Whole z x := by
  refine ⟨hfin, h, fun hzero => ?_⟩
  rw [units, hzero] at h
  exact mul_units_one_ne_zero hz h.symm

theorem of_bits (hnan : x.isNaN = false) (hz : z ≠ 0) (hbits : z.natAbs < 2 ^ 53)
    (h : units x = z * units 1.0) : Whole z x := by
  obtain ⟨-, hlow, hhigh⟩ := roundedUnits_mul_one hbits
  exact of_units (isFinite_of_units hnan (h ▸ hlow) (h ▸ hhigh)) hz h

theorem neg (hx : Whole z x) (hz : z ≠ 0) : Whole (-z) (-x) := by
  refine of_units ((isFinite_neg x).trans hx.isFinite) (neg_ne_zero.2 hz) ?_
  rw [units_neg, hx.units_eq, neg_mul]

theorem abs (hx : Whole z x) (hz : z ≠ 0) : Whole z.natAbs x.abs := by
  refine of_units ((isFinite_abs x).trans hx.isFinite) (by omega) ?_
  rw [units_abs, hx.units_eq, abs_mul, abs_of_pos units_one_pos, Int.abs_eq_natAbs]

/-- An integer other than zero is unpacked with its sign. -/
theorem exists_finite (hx : Whole z x) (hz : z ≠ 0) :
    ∃ s m e hm, x.toModel.unpack = .finite s m e hm ∧ (s = .positive ↔ 0 < z) := by
  have hcanonical := isCanonical_unpack x.toModel
  have hfin : x.toModel.unpack.isFinite = true := hx.isFinite
  have hunits : unitsOf x.toModel.unpack = z * units 1.0 := hx.units_eq
  have hpos : 0 < unitsOf x.toModel.unpack ↔ 0 < z := by
    rw [hunits, mul_pos_iff_of_pos_right units_one_pos]
  generalize x.toModel.unpack = u at *
  rcases u with s | _ | s | ⟨s, m, e, hm⟩
  case infinity | notANumber => cases hfin
  case zero => exact absurd hunits.symm (mul_units_one_ne_zero hz)
  refine ⟨s, m, e, hm, rfl, ?_⟩
  obtain ⟨n, hn, -, -, happly⟩ := unitsOf_bounds hcanonical
  rw [← hpos, happly]
  cases s with
  | negative => exact iff_of_false (by simp) (by rw [Sign.apply]; omega)
  | positive => exact iff_of_true rfl (by rw [Sign.apply]; omega)

/-- Sums of integers are exact as long as they have `53` bits. -/
theorem add (hx : Whole z x) (hy : Whole w y) (h : (z + w).natAbs < 2 ^ 53) :
    Whole (z + w) (x + y) := by
  obtain ⟨hnan, hunits⟩ := units_add hx.isFinite hy.isFinite
  obtain ⟨hkept, hlow, hhigh⟩ := roundedUnits_mul_one h
  rw [hx.units_eq, hy.units_eq, ← add_mul, hkept] at hunits
  exact ⟨isFinite_of_units hnan (hunits ▸ hlow) (hunits ▸ hhigh), hunits,
    unpack_add_ne (isCanonical_unpack _) (isCanonical_unpack _) hx.isFinite hy.isFinite hx.unsigned
      hy.unsigned⟩

/-- So are their differences. -/
theorem exact_sub (hx : Whole z x) (hy : Whole w y) (h : (z - w).natAbs < 2 ^ 53) :
    (x - y).isFinite = true ∧ units (x - y) = (z - w : ℤ) * units 1.0 := by
  obtain ⟨hnan, hunits⟩ := units_sub hx.isFinite hy.isFinite
  obtain ⟨hkept, hlow, hhigh⟩ := roundedUnits_mul_one h
  rw [hx.units_eq, hy.units_eq, ← sub_mul, hkept] at hunits
  exact ⟨isFinite_of_units hnan (hunits ▸ hlow) (hunits ▸ hhigh), hunits⟩

theorem lt_iff (hx : Whole z x) (hy : Whole w y) : x < y ↔ z < w := by
  rw [lt_iff_units (isNaN_of_isFinite hx.isFinite) (isNaN_of_isFinite hy.isFinite), hx.units_eq,
    hy.units_eq, mul_lt_mul_iff_of_pos_right units_one_pos]

end Whole

theorem whole_ofNat {n : ℕ} (hn : n < 2 ^ 53) : Whole n (Float.ofNat n) := by
  rcases Nat.eq_zero_or_pos n with rfl | hpos
  · -- Units do not tell the sign of zero, so this one has to be unpacked.
    have hunpack : (Float.ofNat 0).toModel.unpack = .zero .positive := rfl
    refine ⟨rfl, ?_, by simp [hunpack]⟩
    rw [units, hunpack, Nat.cast_zero, zero_mul]
    rfl
  · obtain ⟨hnan, hunits⟩ := units_ofNat n
    have hbits : (n : ℤ).natAbs < 2 ^ 53 := hn
    exact .of_bits hnan (by omega) hbits (hunits.trans (roundedUnits_mul_one hbits).1)

theorem whole_ofInt {z : ℤ} (hz : z.natAbs < 2 ^ 53) : Whole z (Float.ofInt z) := by
  cases z with
  | ofNat n => exact whole_ofNat hz
  | negSucc n => exact (whole_ofNat (n := n + 1) hz).neg (by omega)

theorem ofInt_add_ofNat {z : ℤ} {n : ℕ} (hz : z.natAbs < 2 ^ 53) (hn : n < 2 ^ 53)
    (h : (z + n).natAbs < 2 ^ 53) : Float.ofInt z + Float.ofNat n = Float.ofInt (z + n) :=
  ((whole_ofInt hz).add (whole_ofNat hn) h).unique (whole_ofInt h)

/-! ### Significands -/

namespace Whole

variable {n k : ℕ} {x y : Float}

/-- A positive integer of `53` bits as it is unpacked: all bits of the significand are
    significant. -/
theorem exists_unpack (hx : Whole n x) (hpos : 0 < n) :
    ∃ (m i : ℕ) (hm : 0 < m), x.toModel.unpack = .finite .positive m (i - 52) hm ∧
      2 ^ 52 ≤ m ∧ m < 2 ^ 53 ∧ m * 2 ^ i = n * 2 ^ 52 := by
  have hcanonical := isCanonical_unpack x.toModel
  have hfin : x.toModel.unpack.isFinite = true := hx.isFinite
  have hunits : unitsOf x.toModel.unpack = (n * 2 ^ 1074 : ℕ) := by
    rw [Nat.cast_mul, ← units_one]
    exact hx.units_eq
  have hn : 0 < n * 2 ^ 1074 := by positivity
  generalize x.toModel.unpack = u at *
  rcases u with s | _ | s | ⟨s, m, e, hm⟩
  case infinity | notANumber => cases hfin
  case zero =>
    rw [unitsOf] at hunits
    omega
  rw [unitsOf_finite hcanonical] at hunits
  have hleast := hcanonical.1.least
  cases s with
  | negative =>
    rw [Sign.apply] at hunits
    omega
  | positive =>
    rw [Sign.apply, Nat.cast_inj] at hunits
    generalize hj : (e + 1074).toNat = j at hunits
    -- Only at the least exponent are there leading zeros, and it is too small for an integer.
    have hlow := add_lt_of_mul_pow_eq (a := 0) hpos hcanonical.1.bits hunits.symm
    have hfull : 2 ^ 52 ≤ m := hcanonical.1.full.resolve_right (by omega)
    obtain ⟨i, rfl⟩ : ∃ i, j = i + 1022 := ⟨j - 1022, by omega⟩
    refine ⟨m, i, hm, ?_, hfull, hcanonical.1.bits, ?_⟩
    · rw [finite.injEq]
      exact ⟨rfl, rfl, by omega⟩
    · have hscaled : m * 2 ^ i * 2 ^ 1022 = n * 2 ^ 52 * 2 ^ 1022 := by
        rw [mul_assoc, ← pow_add, hunits, mul_assoc, ← pow_add]
      exact Nat.eq_of_mul_eq_mul_right (by positivity) hscaled

end Whole

/-- An integer that 64 bits can count to is counted to. -/
theorem toNat_toUInt64 {x : Float} {n : ℕ} (hfin : x.isFinite = true)
    (hunits : units x = n * units 1.0) (hn : n < 2 ^ 53) : x.toUInt64.toNat = n := by
  have hsize : (UInt64.ofNatClamp n).toNat = n := by
    rw [UInt64.ofNatClamp, dif_pos (hn.trans (by decide)), UInt64.toNat_ofNatLT]
  have hvalue : x.toModel.unpack.toInt 0 (UInt64.size - 1) = n := by
    rcases Nat.eq_zero_or_pos n with rfl | hpos
    · rw [Nat.cast_zero, zero_mul] at hunits
      obtain ⟨s, hs⟩ := exists_zero_of_unitsOf (isCanonical_unpack _) hfin hunits
      rw [hs]
      rfl
    · have hx : Whole n x := .of_units hfin (by omega) hunits
      obtain ⟨m, i, hm, hunpack, hfull, -, heq⟩ := hx.exists_unpack hpos
      have hhigh := add_lt_of_mul_pow_eq hfull hn heq
      -- The significand is only shifted to the right, by bits that are zero.
      obtain ⟨d, hd⟩ : ∃ d, 52 = i + d := ⟨52 - i, by omega⟩
      have hm' : m = n * 2 ^ d := by
        refine Nat.eq_of_mul_eq_mul_right (Nat.two_pow_pos i) ?_
        rw [heq, hd, pow_add]
        ring
      have hleft : ((i : ℤ) - 52).toNat = 0 := by omega
      have hright : (0 - ((i : ℤ) - 52)).toNat = d := by omega
      rw [hunpack]
      simp only [UnpackedFloat.toInt, roundToInt, decreaseExponent, shiftToExponent, hleft,
        Nat.shiftLeft_zero, Nat.cast_zero, sub_zero, hright, Sign.apply]
      change ((ExtendedMantissa.mk m false false >>> d).mantissa : ℤ) = n
      rw [shift_eq, hm', Nat.mul_div_cancel n (Nat.two_pow_pos d)]
  change (UInt64.ofNatClamp (x.toModel.unpack.toInt 0 (UInt64.size - 1)).toNat).toNat = n
  rw [hvalue, Int.toNat_natCast, hsize]

/-- The product of positive integers of `53` bits is their product, rounded. -/
theorem Whole.units_mul {n k : ℕ} {x y : Float} (hx : Whole n x) (hy : Whole k y) (hn : 0 < n)
    (hk : 0 < k) :
    (x * y).isNaN = false ∧ units (x * y) = roundedUnits ((n * k : ℕ) * units 1.0) := by
  obtain ⟨m, i, hm, hunpack, hfull, -, heq⟩ := hx.exists_unpack hn
  obtain ⟨m', i', hm', hunpack', hfull', -, heq'⟩ := hy.exists_unpack hk
  have hexponent : (i : ℤ) - 52 + (i' - 52) = ((i + i' + 970 : ℕ) : ℤ) - 1074 := by
    push_cast
    ring
  have hproduct (j : ℕ) : m * m' * 2 ^ (i + i' + j) = n * k * (2 ^ 52 * 2 ^ 52 * 2 ^ j) := by
    calc m * m' * 2 ^ (i + i' + j) = (m * 2 ^ i) * (m' * 2 ^ i') * 2 ^ j := by
          rw [pow_add, pow_add]
          ring
      _ = n * k * (2 ^ 52 * 2 ^ 52 * 2 ^ j) := by
          rw [heq, heq']
          ring
  -- Significands are multiplied in full, so there is nothing to round but the product.
  have hlong : 2 ^ 52 ≤ m * m' := hfull.trans (Nat.le_mul_of_pos_right m hm')
  have hpacks := packsTo_roundWithAccuracy .positive (Nat.mul_pos hm hm')
    (excess_mul_pow hlong (i + i' + 970))
  have hunits :
      Sign.positive.apply (m * m' * 2 ^ (i + i' + 970) : ℕ) = (n * k : ℕ) * units 1.0 := by
    have hpow : (2 : ℕ) ^ 52 * 2 ^ 52 * 2 ^ 970 = 2 ^ 1074 := by rw [← pow_add, ← pow_add]
    rw [hproduct, hpow, Sign.apply, Nat.cast_mul, units_one]
  rw [hunits] at hpacks
  have hmul : (x * y).toModel = Float.Model.pack (roundWithAccuracy Format.binary64
      .positive (m * m') (((i + i' + 970 : ℕ) : ℤ) - 1074) .exact) := by
    change Float.Model.pack (UnpackedFloat.mul Format.binary64 x.toModel.unpack
      y.toModel.unpack) = _
    rw [hunpack, hunpack', UnpackedFloat.mul, hexponent]
    rfl
  rw [units, hmul]
  refine ⟨?_, hpacks.units⟩
  change (x * y).toModel.unpack.isNaN = false
  rw [hmul]
  exact hpacks.isNaN

/-! ### Powers of ten -/

theorem whole_toFloat {c : ℕ} (hpos : 0 < c) (hc : c < 2 ^ 53) : Whole c c.toUInt64.toFloat := by
  obtain ⟨m, j, hm, hunpack, -, heq⟩ := unpack_ofUInt64 hpos hc
  have hcanonical := isCanonical_unpack (Float.Model.ofUInt64 c.toUInt64)
  have hj : ((j : ℤ) - 1022 + 1074).toNat = j + 52 := by omega
  rw [hunpack] at hcanonical
  refine .of_units ?_ (by omega) ?_
  · change (Float.Model.ofUInt64 c.toUInt64).unpack.isFinite = true
    rw [hunpack]
    rfl
  · change unitsOf (Float.Model.ofUInt64 c.toUInt64).unpack = _
    rw [hunpack, unitsOf_finite hcanonical, hj, heq, Sign.apply, Nat.cast_mul, units_one]

/-- The powers of ten up to the last one that is a double. -/
theorem whole_power {e : ℕ} (he : e < Float.exactlyRepresentablePowersOfTen.size) :
    Whole (10 ^ e : ℕ) Float.exactlyRepresentablePowersOfTen[e] := by
  have hall : ∀ e : Fin 23, (Float.exactlyRepresentablePowersOfTen[e]).isFinite = true ∧
      units Float.exactlyRepresentablePowersOfTen[e] = (10 ^ e.val : ℕ) * units 1.0 := by
    decide +kernel
  obtain ⟨hfin, hunits⟩ := hall ⟨e, he⟩
  exact .of_units hfin (by positivity) hunits

/-- A coefficient of `53` bits times a small power of ten, rounded once. -/
theorem units_ofScientific {c e : ℕ} (hpos : 0 < c) (hc : c < 2 ^ 53) (he : e ≤ 22) :
    (Float.ofScientific c false e).isNaN = false ∧
      units (Float.ofScientific c false e) = roundedUnits ((c * 10 ^ e : ℕ) * units 1.0) := by
  have hsize : e < Float.exactlyRepresentablePowersOfTen.size := Nat.lt_succ_of_le he
  rw [Float.ofScientific, dif_pos ⟨hc, he⟩]
  exact (whole_toFloat hpos hc).units_mul (whole_power hsize) hpos (by positivity)

end GraphScript.Double
