import GraphScript.Proofs.Double.Rounding
import Mathlib

/-!
# Doubles in units

A double that is a number is a multiple of the least positive double, `2 ^ -1074`. Its
`units` are that multiple; an infinite double counts as the power of two behind the
largest finite one, which is where rounding overflows.

* `lt_iff_units`, `le_iff_units`, `beq_iff_units`: doubles are ordered as their units;
* `round_eq`: rounding a double rounds its units.

A double is kept packed, and its operations unpack it into a significand and an
exponent. What is unpacked is `Canonical`, which makes such pairs unique. What comes out
of rounding is canonical too, but its exponent may be too large for packing.
-/

namespace GraphScript.Double

open Float.Model Float.Model.UnpackedFloat

/-- The exponent of the power of two behind the largest finite double, in units. -/
@[irreducible] def limitExponent : ℕ := 2098

/-- The units of the infinite doubles, up to the sign. -/
def limit : ℕ := 2 ^ limitExponent

/-- The value of an unpacked double in units; what is not a number counts as zero. -/
def unitsOf : UnpackedFloat → ℤ
  | .notANumber => 0
  | .zero _ => 0
  | .infinity s => s.apply limit
  | .finite s m e _ => s.apply (min limit (m * 2 ^ (e + 1074).toNat) : ℕ)

/-- A significand and an exponent as rounding gives them: `53` bits, all of them
    significant unless the exponent is the least one. -/
structure Canonical (m : ℕ) (e : ℤ) : Prop where
  bits : m < 2 ^ 53
  least : -1074 ≤ e
  full : 2 ^ 52 ≤ m ∨ e = -1074

/-! ### Packing -/

theorem toNat_one_append (m : BitVec 52) : (1#1 ++ m).toNat = 2 ^ 52 + m.toNat := by
  rw [BitVec.toNat_append, ← Nat.shiftLeft_add_eq_or_of_lt m.isLt]
  rfl

/-- What is unpacked is canonical, with an exponent in the range of finite doubles. -/
theorem canonical_of_unpack {b : BitVec 64} {s : Sign} {m : ℕ} {e : ℤ} {hm : 0 < m}
    (h : UnpackedFloat.unpack Format.binary64 b = .finite s m e hm) :
    Canonical m e ∧ e ≤ 971 := by
  have hmantissa : (@unpackMantissa Format.binary64 b).toNat < 2 ^ 52 := BitVec.isLt _
  have hexponent : (@unpackExponent Format.binary64 b).toNat < 2 ^ 11 := BitVec.isLt _
  have hbias : Format.binary64.exponentBias = 1023 := rfl
  rw [UnpackedFloat.unpack] at h
  dsimp only at h
  split_ifs at h with hinf hzero hsub hnormal <;> cases h
  · -- A subnormal number: the least exponent.
    rw [hsub, hbias]
    exact ⟨⟨by omega, by decide, .inr (by decide)⟩, by decide⟩
  · have hne : (@unpackExponent Format.binary64 b).toNat ≠ 2047 := fun hall =>
      hinf (BitVec.eq_of_toNat_eq hall)
    have hpos : (@unpackExponent Format.binary64 b).toNat ≠ 0 := fun hall =>
      hsub (BitVec.eq_of_toNat_eq hall)
    rw [toNat_one_append, hbias]
    exact ⟨⟨by omega, by omega, .inl (by omega)⟩, by omega⟩

/-- Packing what is canonical keeps it, and turns what is too large into an infinite
    double. -/
theorem unpack_pack {s : Sign} {m : ℕ} {e : ℤ} {hm : 0 < m} (h : Canonical m e) :
    (Float.Model.pack (.finite s m e hm)).unpack =
      if e ≤ 971 then .finite s m e hm else .infinity s := by
  obtain ⟨hbits, hleast, hfull⟩ := h
  rw [Float.Model.unpack, Float.Model.pack]
  simp only [UnpackedFloat.pack, show Format.binary64.exponentBias = 1023 from rfl,
    show Format.binary64.mantissaBits = 53 from rfl]
  generalize hbiased : (e + ((1023 : ℕ) : ℤ) + ((52 : ℕ) : ℤ)).toNat = biased
  have hvalue : (biased : ℤ) = e + 1075 := by omega
  rcases lt_or_ge 971 e with hlarge | hrange
  · rw [if_pos (by omega), if_neg (by omega)]
    cases s <;> rfl
  · rw [if_neg (by omega), if_pos hrange]
    rcases Nat.lt_or_ge m (2 ^ 52) with hsub | hnormal
    · -- A subnormal number has the least exponent, which is packed as zero.
      have hlog : m.log2 < 52 := (Nat.log2_lt hm.ne').2 hsub
      obtain rfl : e = -1074 := hfull.resolve_left (by omega)
      have hne : BitVec.ofNat 52 m ≠ 0#52 := fun hzero => by
        have := congrArg BitVec.toNat hzero
        rw [BitVec.toNat_ofNat, Nat.mod_eq_of_lt hsub] at this
        exact hm.ne' this
      rw [if_neg (by omega)]
      simp only [UnpackedFloat.unpack, unpackSign_packComponents, Sign.ofBitVec_toBitVec,
        unpackExponent_packComponents, unpackMantissa_packComponents]
      rw [if_neg (by decide), if_pos trivial, dif_neg hne, finite.injEq]
      exact ⟨rfl, by rw [BitVec.toNat_ofNat, Nat.mod_eq_of_lt hsub], rfl⟩
    · -- The leading bit of any other is left out, and comes back when it is unpacked.
      have hlog : m.log2 = 52 := (Nat.log2_eq_iff hm.ne').2 ⟨hnormal, hbits⟩
      have hexponent : (BitVec.ofNat 11 biased).toNat = biased := by
        rw [BitVec.toNat_ofNat, Nat.mod_eq_of_lt (by omega)]
      have hall : BitVec.ofNat 11 biased ≠ -1#11 := fun heq => by
        have := congrArg BitVec.toNat heq
        rw [hexponent, show (-1#11).toNat = 2047 from rfl] at this
        omega
      have hnone : BitVec.ofNat 11 biased ≠ 0#11 := fun heq => by
        have := congrArg BitVec.toNat heq
        rw [hexponent, show (0#11).toNat = 0 from rfl] at this
        omega
      rw [if_pos (by omega)]
      simp only [UnpackedFloat.unpack, unpackSign_packComponents, Sign.ofBitVec_toBitVec,
        unpackExponent_packComponents, unpackMantissa_packComponents]
      rw [if_neg hall, if_neg hnone, finite.injEq]
      refine ⟨rfl, ?_, ?_⟩
      · rw [toNat_one_append, BitVec.toNat_ofNat]
        omega
      · rw [hexponent, show Format.binary64.exponentBias = 1023 from rfl]
        omega

/-! ### Rounding -/

theorem targetExponent_eq {m : ℕ} (hm : 0 < m) (j : ℕ) :
    Format.binary64.targetExponent (totalExponent m (j - 1074)) =
      (excess (m * 2 ^ j) : ℤ) - 1074 := by
  rw [excess, log2_mul_pow hm]
  simp only [Format.targetExponent, totalExponent, show Format.binary64.mantissaBits = 53 from rfl,
    show Format.binary64.minExponent = -1074 from rfl]
  omega

/-- Shifting by the bits that are too many. -/
theorem shiftToTargetExponent_eq {m : ℕ} (hm : 0 < m) (j : ℕ) :
    shiftToTargetExponent Format.binary64 m (j - 1074) .exact =
      (ExtendedMantissa.mk m false false >>> (excess (m * 2 ^ j) - j),
        ((j + (excess (m * 2 ^ j) - j) : ℕ) : ℤ) - 1074) := by
  have hshift : ((excess (m * 2 ^ j) : ℤ) - 1074 - (j - 1074)).toNat = excess (m * 2 ^ j) - j := by
    omega
  simp only [shiftToTargetExponent, shiftToExponent, targetExponent_eq hm, hshift]
  refine Prod.ext rfl ?_
  push_cast
  ring

/-- Rounding gives a canonical double, whose units are the rounded units. -/
theorem round_eq (s : Sign) {m : ℕ} (hm : 0 < m) (j : ℕ) :
    ∃ (m' : ℕ) (e' : ℤ) (hm' : 0 < m'), UnpackedFloat.round Format.binary64 s m (j - 1074) =
      .finite s m' e' hm' ∧ Canonical m' e' ∧ m' * 2 ^ (e' + 1074).toNat = rounded (m * 2 ^ j) := by
  have hunits : 0 < m * 2 ^ j := Nat.mul_pos hm (Nat.two_pow_pos j)
  have hpos := nearest_excess_pos hunits
  have hle := nearest_excess_le (m * 2 ^ j)
  have hfull : 2 ^ 52 ≤ nearest (m * 2 ^ j) (excess (m * 2 ^ j)) ∨ excess (m * 2 ^ j) = 0 :=
    (Nat.eq_zero_or_pos _).symm.imp le_nearest_excess id
  -- The significand is first made long enough for the shift to go to the right only.
  obtain ⟨i, d, hj, hi⟩ : ∃ i d, j = i + d ∧
      d = j - excess (m * 2 ^ j) := ⟨j - (j - excess (m * 2 ^ j)), _, by omega, rfl⟩
  have hsplit : m * 2 ^ d * 2 ^ i = m * 2 ^ j := by
    rw [mul_assoc, ← pow_add, add_comm d, hj]
  have hround : UnpackedFloat.round Format.binary64 s m (j - 1074) =
      roundWithAccuracy Format.binary64 s (m * 2 ^ d) (i - 1074) .exact := by
    have hshift : (((j : ℤ) - 1074) - ((excess (m * 2 ^ j) : ℤ) - 1074)).toNat = d := by omega
    simp only [UnpackedFloat.round, targetExponent_eq hm, decreaseExponent, hshift,
      Nat.shiftLeft_eq]
    congr 1
    omega
  have hfirst := shiftToTargetExponent_eq (Nat.mul_pos hm (Nat.two_pow_pos d)) i
  rw [hsplit, show i + (excess (m * 2 ^ j) - i) = excess (m * 2 ^ j) by omega] at hfirst
  have hnearest : nearest (m * 2 ^ d) (excess (m * 2 ^ j) - i) =
      nearest (m * 2 ^ j) (excess (m * 2 ^ j)) := by
    rw [← nearest_scale _ _ i, hsplit, Nat.sub_add_cancel (by omega)]
  rw [rounded]
  rw [hround, roundWithAccuracy]
  simp only [hfirst, roundedMantissa_shift, hnearest]
  generalize nearest (m * 2 ^ j) (excess (m * 2 ^ j)) = r at *
  generalize excess (m * 2 ^ j) = t at *
  have hsecond := shiftToTargetExponent_eq hpos t
  rw [excess, log2_mul_pow hpos] at hsecond
  rcases hle.lt_or_eq with hlt | rfl
  · have hlog : r.log2 < 53 := (Nat.log2_lt hpos.ne').2 hlt
    rw [show r.log2 + t + 1 - 53 - t = 0 by omega, shift_eq] at hsecond
    simp only [hsecond]
    refine ⟨r, t - 1074, hpos, by simp [hpos.ne'], ⟨hlt, by omega, by omega⟩, ?_⟩
    rw [sub_add_cancel, Int.toNat_natCast]
  · -- Rounding up may need one bit more, and then leaves a power of two.
    rw [Nat.log2_two_pow, show 53 + t + 1 - 53 - t = 1 by omega, shift_eq] at hsecond
    simp only [hsecond]
    refine ⟨2 ^ 52, (t + 1 : ℕ) - 1074, by norm_num, by simp, ⟨by norm_num, by omega, by simp⟩, ?_⟩
    rw [sub_add_cancel, Int.toNat_natCast]
    ring

/-! ### Order -/

theorem pow_lt_limit {m : ℕ} {e : ℤ} (h : Canonical m e) (he : e ≤ 971) :
    m * 2 ^ (e + 1074).toNat < limit := by
  calc m * 2 ^ (e + 1074).toNat < 2 ^ 53 * 2 ^ (e + 1074).toNat :=
        Nat.mul_lt_mul_of_pos_right h.bits (Nat.two_pow_pos _)
    _ = 2 ^ (53 + (e + 1074).toNat) := (pow_add ..).symm
    _ ≤ limit := by
        refine Nat.pow_le_pow_right two_pos ?_
        rw [limitExponent]
        omega

/-- The order of canonical pairs: first by the exponent, then by the significand. -/
theorem compare_units {m m' : ℕ} {e e' : ℤ} (h : Canonical m e) (h' : Canonical m' e') :
    (compare e e').then (compare m m') =
      compare (m * 2 ^ (e + 1074).toNat) (m' * 2 ^ (e' + 1074).toNat) := by
  -- A larger exponent makes all `53` bits significant, and so the number larger.
  have key : ∀ {m m' : ℕ} {e e' : ℤ}, Canonical m e → Canonical m' e' → e < e' →
      m * 2 ^ (e + 1074).toNat < m' * 2 ^ (e' + 1074).toNat := by
    intro m m' e e' h h' hlt
    have hleast := h.least
    have hfull : 2 ^ 52 ≤ m' := h'.full.resolve_right (by omega)
    calc m * 2 ^ (e + 1074).toNat < 2 ^ 53 * 2 ^ (e + 1074).toNat :=
          Nat.mul_lt_mul_of_pos_right h.bits (Nat.two_pow_pos _)
      _ = 2 ^ 52 * 2 ^ ((e + 1074).toNat + 1) := by ring
      _ ≤ m' * 2 ^ (e' + 1074).toNat :=
          Nat.mul_le_mul hfull (Nat.pow_le_pow_right two_pos (by omega))
  rcases lt_trichotomy e e' with hlt | rfl | hgt
  · rw [compare_lt_iff_lt.2 hlt, compare_lt_iff_lt.2 (key h h' hlt)]
    rfl
  · rw [compare_eq_iff_eq.2 rfl]
    have hpos : 0 < 2 ^ (e + 1074).toNat := Nat.two_pow_pos _
    rcases lt_trichotomy m m' with hlt | rfl | hgt
    · rw [compare_lt_iff_lt.2 hlt, compare_lt_iff_lt.2 (Nat.mul_lt_mul_of_pos_right hlt hpos)]
      rfl
    · rw [compare_eq_iff_eq.2 rfl, compare_eq_iff_eq.2 rfl]
      rfl
    · rw [compare_gt_iff_gt.2 hgt, compare_gt_iff_gt.2 (Nat.mul_lt_mul_of_pos_right hgt hpos)]
      rfl
  · rw [compare_gt_iff_gt.2 hgt, compare_gt_iff_gt.2 (key h' h hgt)]
    rfl

/-- The unpacked doubles that packed ones stand for. -/
def IsCanonical : UnpackedFloat → Prop
  | .finite _ m e _ => Canonical m e ∧ e ≤ 971
  | _ => True

theorem isCanonical_unpack (x : Float.Model) : IsCanonical x.unpack := by
  rcases hx : x.unpack with s | _ | s | ⟨s, m, e, hm⟩
  · trivial
  · trivial
  · trivial
  · exact canonical_of_unpack hx

theorem unitsOf_finite {s : Sign} {m : ℕ} {e : ℤ} {hm : 0 < m}
    (h : IsCanonical (.finite s m e hm)) :
    unitsOf (.finite s m e hm) = s.apply (m * 2 ^ (e + 1074).toNat : ℕ) := by
  rw [unitsOf, min_eq_right (pow_lt_limit h.1 h.2).le]

theorem limit_pos : 0 < limit := Nat.two_pow_pos _

theorem unitsOf_bounds {s : Sign} {m : ℕ} {e : ℤ} {hm : 0 < m}
    (h : IsCanonical (.finite s m e hm)) :
    ∃ n : ℕ, 0 < n ∧ n < limit ∧ n = m * 2 ^ (e + 1074).toNat ∧
      unitsOf (.finite s m e hm) = s.apply n :=
  ⟨_, Nat.mul_pos hm (Nat.two_pow_pos _), pow_lt_limit h.1 h.2, rfl, unitsOf_finite h⟩

theorem compare_cast (n n' : ℕ) : compare (n : ℤ) (n' : ℤ) = compare n n' := by
  simp only [compare, compareOfLessAndEq, Int.ofNat_lt, Int.ofNat_inj]

theorem compare_neg (a b : ℤ) : compare (-a) (-b) = (compare a b).swap := by
  rcases lt_trichotomy a b with h | rfl | h
  · rw [compare_lt_iff_lt.2 h, compare_gt_iff_gt.2 (neg_lt_neg h)]
    rfl
  · rw [compare_eq_iff_eq.2 rfl, compare_eq_iff_eq.2 rfl]
    rfl
  · rw [compare_gt_iff_gt.2 h, compare_lt_iff_lt.2 (neg_lt_neg h)]
    rfl

/-- Finite doubles lie between the infinite ones. -/
theorem unitsOf_mem_limits {x : UnpackedFloat} (hx : IsCanonical x) (hfin : x.isFinite = true) :
    -(limit : ℤ) < unitsOf x ∧ unitsOf x < limit := by
  have hlimit := limit_pos
  rcases x with s | _ | s | ⟨s, m, e, hm⟩
  · cases hfin
  · cases hfin
  · simp only [unitsOf]
    omega
  · obtain ⟨n, hpos, hlt, _, hunits⟩ := unitsOf_bounds hx
    rw [hunits]
    cases s <;> simp only [Sign.apply] <;> omega

/-- Unpacked doubles are compared as their units. -/
theorem compare_eq {x y : UnpackedFloat} (hx : IsCanonical x) (hy : IsCanonical y)
    (hx' : x.isNaN = false) (hy' : y.isNaN = false) :
    x.compare y = some (compare (unitsOf x) (unitsOf y)) := by
  have hlimit := limit_pos
  have lt {a b : ℤ} (h : a < b) : some .lt = some (compare a b) :=
    congrArg some (compare_lt_iff_lt.2 h).symm
  have gt {a b : ℤ} (h : b < a) : some .gt = some (compare a b) :=
    congrArg some (compare_gt_iff_gt.2 h).symm
  have eq {a : ℤ} : some .eq = some (compare a a) := congrArg some (compare_eq_iff_eq.2 rfl).symm
  rcases x with s | _ | s | ⟨s, m, e, hm⟩
  case notANumber => cases hx'
  all_goals rcases y with s' | _ | s' | ⟨s', m', e', hm'⟩
  case infinity.notANumber | zero.notANumber | finite.notANumber => cases hy'
  case infinity.infinity =>
    cases s <;> cases s'
    exacts [eq, lt (by simp only [unitsOf, Sign.apply]; omega),
      gt (by simp only [unitsOf, Sign.apply]; omega), eq]
  case infinity.zero | infinity.finite =>
    have hbounds := unitsOf_mem_limits hy rfl
    cases s
    exacts [lt hbounds.1, gt hbounds.2]
  case zero.infinity | finite.infinity =>
    have hbounds := unitsOf_mem_limits hx rfl
    cases s'
    exacts [gt hbounds.1, lt hbounds.2]
  case zero.zero => exact eq
  case zero.finite =>
    obtain ⟨n, hpos, _, _, hunits⟩ := unitsOf_bounds hy
    rw [hunits]
    cases s'
    exacts [gt (by simp only [unitsOf, Sign.apply]; omega),
      lt (by simp only [unitsOf, Sign.apply]; omega)]
  case finite.zero =>
    obtain ⟨n, hpos, _, _, hunits⟩ := unitsOf_bounds hx
    rw [hunits]
    cases s
    exacts [lt (by simp only [unitsOf, Sign.apply]; omega),
      gt (by simp only [unitsOf, Sign.apply]; omega)]
  case finite.finite =>
    -- With one sign the pairs decide, the other way round if it is negative.
    obtain ⟨n, hpos, _, hn, hunits⟩ := unitsOf_bounds hx
    obtain ⟨n', hpos', _, hn', hunits'⟩ := unitsOf_bounds hy
    have hmain := compare_units hx.1 hy.1
    rw [← hn, ← hn'] at hmain
    rw [hunits, hunits']
    cases s <;> cases s' <;>
      simp only [UnpackedFloat.compare, Sign.apply, hmain, compare_neg, compare_cast]
    exacts [lt (by omega), gt (by omega)]

/-- The value of a double in units of the least positive one. What is not a number counts
    as zero. -/
def units (x : Float) : ℤ :=
  unitsOf x.toModel.unpack

/-- Doubles that are numbers are ordered as their units. -/
theorem lt_iff_units {x y : Float} (hx : x.isNaN = false) (hy : y.isNaN = false) :
    x < y ↔ units x < units y := by
  have hcompare := compare_eq (isCanonical_unpack x.toModel) (isCanonical_unpack y.toModel) hx hy
  change (decide (x.toModel.unpack.lt y.toModel.unpack = true)) = true ↔ _
  rw [decide_eq_true_iff, UnpackedFloat.lt, hcompare, beq_iff_eq, Option.some_inj,
    compare_lt_iff_lt]
  rfl

theorem le_iff_units {x y : Float} (hx : x.isNaN = false) (hy : y.isNaN = false) :
    x ≤ y ↔ units x ≤ units y := by
  have hcompare := compare_eq (isCanonical_unpack x.toModel) (isCanonical_unpack y.toModel) hx hy
  change (decide (x.toModel.unpack.le y.toModel.unpack = true)) = true ↔ _
  rw [decide_eq_true_iff, UnpackedFloat.le, hcompare, Option.any_some, ← compare_le_iff_le,
    Ordering.isLE_iff_ne_gt]
  rfl

theorem beq_iff_units {x y : Float} (hx : x.isNaN = false) (hy : y.isNaN = false) :
    (x == y) = true ↔ units x = units y := by
  have hcompare := compare_eq (isCanonical_unpack x.toModel) (isCanonical_unpack y.toModel) hx hy
  change x.toModel.unpack.beq y.toModel.unpack = true ↔ _
  rw [UnpackedFloat.beq, hcompare, beq_iff_eq, Option.some_inj, compare_eq_iff_eq]
  rfl

theorem isNaN_of_isFinite {x : Float} (hx : x.isFinite = true) : x.isNaN = false := by
  change x.toModel.unpack.isFinite = true at hx
  change x.toModel.unpack.isNaN = false
  cases h : x.toModel.unpack with
  | notANumber => simp [h, UnpackedFloat.isFinite] at hx
  | infinity | zero | finite => rfl

end GraphScript.Double
