import GraphScript.Proofs.Double.Units

/-!
# Sums of doubles

The sum of two finite doubles is the sum of their units, rounded (`units_add`). *Amounts*
are the doubles from zero up, the infinite one included; weights are amounts, and so are
their sums. About sums of amounts, all that is needed later is:

* `le_units_add`: adding an amount makes nothing smaller;
* `units_add_mono`: adding the same amount respects the order;
* `Counts.add_one`: counting in steps of `1.0` is exact up to `2 ^ 53`.
-/

namespace GraphScript.Double

open Float.Model Float.Model.UnpackedFloat

/-- What rounding makes of an integer number of units. -/
def roundedUnits (z : ℤ) : ℤ :=
  z.sign * (min limit (rounded z.natAbs) : ℕ)

theorem roundedUnits_mono {z z' : ℤ} (h : z ≤ z') : roundedUnits z ≤ roundedUnits z' := by
  have hmono : ∀ {n n' : ℕ}, n ≤ n' → min limit (rounded n) ≤ min limit (rounded n') :=
    fun h => min_le_min_left _ (rounded_mono h)
  rw [roundedUnits, roundedUnits]
  rcases lt_trichotomy z 0 with hz | rfl | hz
  · rw [Int.sign_eq_neg_one_of_neg hz]
    rcases lt_trichotomy z' 0 with hz' | rfl | hz'
    · rw [Int.sign_eq_neg_one_of_neg hz']
      have := hmono (show z'.natAbs ≤ z.natAbs by omega)
      omega
    · rw [Int.sign_zero]
      omega
    · rw [Int.sign_eq_one_of_pos hz']
      omega
  · rcases h.eq_or_lt with rfl | hz'
    · exact le_rfl
    · rw [Int.sign_eq_one_of_pos hz', Int.sign_zero]
      omega
  · rw [Int.sign_eq_one_of_pos hz, Int.sign_eq_one_of_pos (hz.trans_le h)]
    have := hmono (show z.natAbs ≤ z'.natAbs by omega)
    omega

theorem roundedUnits_apply (s : Sign) (n : ℕ) :
    roundedUnits (s.apply n) = s.apply (min limit (rounded n) : ℕ) := by
  rcases Nat.eq_zero_or_pos n with rfl | hn
  · cases s <;> simp [roundedUnits, Sign.apply, rounded, nearest]
  · have hpos : (0 : ℤ) < n := Int.natCast_pos.2 hn
    cases s <;> simp [roundedUnits, Sign.apply, Int.sign_eq_one_of_pos hpos]

/-- What is a double already is kept by rounding. -/
theorem roundedUnits_unitsOf {x : UnpackedFloat} (hx : IsCanonical x) :
    roundedUnits (unitsOf x) = unitsOf x := by
  rcases x with s | _ | s | ⟨s, m, e, hm⟩
  · have hlimit : rounded limit = limit := by
      simpa [limit] using rounded_mul_pow (show 1 < 2 ^ 53 by norm_num) limitExponent
    rw [unitsOf, roundedUnits_apply, hlimit, min_self]
  · simp [unitsOf, roundedUnits]
  · simp [unitsOf, roundedUnits]
  · rw [unitsOf_finite hx, roundedUnits_apply, rounded_mul_pow hx.1.bits,
      min_eq_right (pow_lt_limit hx.1 hx.2).le]

/-! ### Packing sums -/

theorem unpack_pack_infinity (s : Sign) :
    (Float.Model.pack (.infinity s)).unpack = .infinity s := by
  cases s <;> rfl

theorem unpack_pack_zero (s : Sign) : (Float.Model.pack (.zero s)).unpack = .zero s :=
  unpack_packedZero

/-- Packing keeps the units of what is canonical: a double that is too large becomes
    infinite, and counts as much. -/
theorem unitsOf_unpack_pack {s : Sign} {m : ℕ} {e : ℤ} {hm : 0 < m} (h : Canonical m e) :
    unitsOf (Float.Model.pack (.finite s m e hm)).unpack = unitsOf (.finite s m e hm) := by
  rw [unpack_pack h]
  split_ifs with hrange
  · rfl
  · have hfull : 2 ^ 52 ≤ m := h.full.resolve_right (by omega)
    have hlimit : limit ≤ m * 2 ^ (e + 1074).toNat :=
      calc limit ≤ 2 ^ (52 + (e + 1074).toNat) :=
            Nat.pow_le_pow_right two_pos (by rw [limitExponent]; omega)
        _ = 2 ^ 52 * 2 ^ (e + 1074).toNat := pow_add ..
        _ ≤ m * 2 ^ (e + 1074).toNat := Nat.mul_le_mul_right _ hfull
    rw [unitsOf, unitsOf, min_eq_left hlimit]

/-- An unpacked double that is a number, with the given units once it is packed. -/
structure PacksTo (x : UnpackedFloat) (z : ℤ) : Prop where
  isNaN : (Float.Model.pack x).unpack.isNaN = false
  units : unitsOf (Float.Model.pack x).unpack = z

theorem packsTo_finite {s : Sign} {m : ℕ} {e : ℤ} {hm : 0 < m} (h : Canonical m e) :
    PacksTo (.finite s m e hm) (unitsOf (.finite s m e hm)) := by
  refine ⟨?_, unitsOf_unpack_pack h⟩
  rw [unpack_pack h]
  split_ifs <;> rfl

theorem packsTo_round (s : Sign) {m : ℕ} (hm : 0 < m) (j : ℕ) :
    PacksTo (UnpackedFloat.round Format.binary64 s m (j - 1074))
      (roundedUnits (s.apply (m * 2 ^ j : ℕ))) := by
  obtain ⟨m', e', hm', hround, hcanonical, hunits⟩ := round_eq s hm j
  rw [hround, roundedUnits_apply, ← hunits]
  exact packsTo_finite hcanonical

theorem packsTo_normalize (z : ℤ) (j : ℕ) :
    PacksTo (UnpackedFloat.normalize Format.binary64 z (j - 1074) .positive)
      (roundedUnits (z * 2 ^ j)) := by
  rw [UnpackedFloat.normalize]
  rcases lt_trichotomy z 0 with hz | rfl | hz
  · rw [compare_lt_iff_lt.2 hz]
    have hunits : Sign.negative.apply ((-z).toNat * 2 ^ j : ℕ) = z * 2 ^ j := by
      simp only [Sign.apply]
      push_cast
      rw [Int.toNat_of_nonneg (by omega)]
      ring
    simpa only [hunits] using packsTo_round .negative (show 0 < (-z).toNat by omega) j
  · rw [compare_eq_iff_eq.2 rfl]
    refine ⟨by rw [unpack_pack_zero]; rfl, ?_⟩
    rw [unpack_pack_zero, zero_mul]
    simp [unitsOf, roundedUnits]
  · rw [compare_gt_iff_gt.2 hz]
    have hunits : Sign.positive.apply (z.toNat * 2 ^ j : ℕ) = z * 2 ^ j := by
      simp only [Sign.apply]
      push_cast
      rw [Int.toNat_of_nonneg (by omega)]
    simpa only [hunits] using packsTo_round .positive (show 0 < z.toNat by omega) j

theorem apply_mul_pow (s : Sign) (m : ℕ) {i j : ℕ} (h : i ≤ j) :
    s.apply (m * 2 ^ (j - i) : ℕ) * 2 ^ i = s.apply (m * 2 ^ j : ℕ) := by
  have hpow : (m * 2 ^ (j - i) : ℕ) * 2 ^ i = m * 2 ^ j := by
    rw [mul_assoc, ← pow_add, Nat.sub_add_cancel h]
  cases s
  · simp only [Sign.apply, neg_mul]
    exact_mod_cast congrArg (fun n : ℕ => -(n : ℤ)) hpow
  · simp only [Sign.apply]
    exact_mod_cast hpow

/-- The sum of two significands at their exponents, brought to the lower one. -/
theorem packsTo_add_finite {s s' : Sign} {m m' : ℕ} {e e' : ℤ} {hm : 0 < m} {hm' : 0 < m'}
    (h : IsCanonical (.finite s m e hm)) (h' : IsCanonical (.finite s' m' e' hm')) :
    PacksTo (UnpackedFloat.add Format.binary64 (.finite s m e hm) (.finite s' m' e' hm'))
      (roundedUnits (unitsOf (.finite s m e hm) + unitsOf (.finite s' m' e' hm'))) := by
  rw [unitsOf_finite h, unitsOf_finite h']
  obtain ⟨j, rfl⟩ : ∃ j : ℕ, e = j - 1074 := ⟨(e + 1074).toNat, by have := h.1.least; omega⟩
  obtain ⟨j', rfl⟩ : ∃ j' : ℕ, e' = j' - 1074 := ⟨(e' + 1074).toNat, by have := h'.1.least; omega⟩
  have hmin : min ((j : ℤ) - 1074) (j' - 1074) = (min j j' : ℕ) - 1074 := by omega
  have hshift : ((j : ℤ) - 1074 - ((min j j' : ℕ) - 1074)).toNat = j - min j j' := by omega
  have hshift' : ((j' : ℤ) - 1074 - ((min j j' : ℕ) - 1074)).toNat = j' - min j j' := by omega
  simp only [UnpackedFloat.add, decreaseExponent, hmin, hshift, hshift', Nat.shiftLeft_eq,
    sub_add_cancel, Int.toNat_natCast]
  -- Neither significand loses bits on the way to the lower exponent.
  convert packsTo_normalize _ (min j j') using 2
  rw [add_mul, apply_mul_pow s m (min_le_left j j'), apply_mul_pow s' m' (min_le_right j j')]

/-- The sum of finite doubles. -/
theorem packsTo_add {x y : UnpackedFloat} (hx : IsCanonical x) (hy : IsCanonical y)
    (hx' : x.isFinite = true) (hy' : y.isFinite = true) :
    PacksTo (UnpackedFloat.add Format.binary64 x y) (roundedUnits (unitsOf x + unitsOf y)) := by
  rcases x with s | _ | s | ⟨s, m, e, hm⟩
  case infinity | notANumber => cases hx'
  all_goals rcases y with s' | _ | s' | ⟨s', m', e', hm'⟩
  case zero.infinity | zero.notANumber | finite.infinity | finite.notANumber => cases hy'
  case zero.zero =>
    cases s <;> cases s' <;> exact ⟨rfl, by simp [unitsOf, roundedUnits]; rfl⟩
  case zero.finite =>
    rw [show unitsOf (.zero s) = 0 from rfl, zero_add, roundedUnits_unitsOf hy]
    exact packsTo_finite hy.1
  case finite.zero =>
    rw [show unitsOf (.zero s') = 0 from rfl, add_zero, roundedUnits_unitsOf hx]
    exact packsTo_finite hx.1
  case finite.finite => exact packsTo_add_finite hx hy

/-- The sum of finite doubles is a number, and its units are the sum of theirs, rounded. -/
theorem units_add {x y : Float} (hx : x.isFinite = true) (hy : y.isFinite = true) :
    (x + y).isNaN = false ∧ units (x + y) = roundedUnits (units x + units y) := by
  obtain ⟨hnan, hunits⟩ :=
    packsTo_add (isCanonical_unpack x.toModel) (isCanonical_unpack y.toModel) hx hy
  exact ⟨hnan, hunits⟩

/-! ### Amounts -/

/-- A number from zero up, finite or not. -/
structure IsAmount (x : Float) : Prop where
  isNaN : x.isNaN = false
  nonneg : 0 ≤ units x

theorem units_zero : units 0.0 = 0 := rfl

theorem isAmount_zero : IsAmount 0.0 := ⟨rfl, units_zero.ge⟩

/-- The units of one. -/
theorem units_one : units 1.0 = (2 ^ 1074 : ℕ) := by
  have hunpack : (1.0 : Float).toModel.unpack = .finite .positive (2 ^ 52) (-52) (by decide) := rfl
  have hcanonical : IsCanonical (.finite .positive (2 ^ 52) (-52) (by decide)) :=
    ⟨⟨by norm_num, by norm_num, .inl le_rfl⟩, by norm_num⟩
  rw [units, hunpack, unitsOf_finite hcanonical]
  simp only [Sign.apply, show ((-52 : ℤ) + 1074).toNat = 1022 from rfl, ← pow_add]

theorem isAmount_of_isFinite {x : Float} (hfin : x.isFinite = true) (hx : 0.0 ≤ x) :
    IsAmount x := by
  have hnan := isNaN_of_isFinite hfin
  exact ⟨hnan, units_zero ▸ (le_iff_units rfl hnan).1 hx⟩

/-- An amount is finite, or the infinite double from zero up. -/
theorem IsAmount.finite_or_infinite {x : Float} (hx : IsAmount x) :
    x.isFinite = true ∨ x.toModel.unpack = .infinity .positive := by
  obtain ⟨hnan, hnonneg⟩ := hx
  change x.toModel.unpack.isNaN = false at hnan
  change x.toModel.unpack.isFinite = true ∨ _
  rw [units] at hnonneg
  have hlimit := limit_pos
  generalize x.toModel.unpack = u at *
  rcases u with s | _ | s | ⟨s, m, e, hm⟩
  · cases s
    · simp only [unitsOf, Sign.apply] at hnonneg
      omega
    · exact .inr rfl
  · cases hnan
  · exact .inl rfl
  · exact .inl rfl

theorem units_le_limit (x : Float) : units x ≤ limit := by
  have hlimit := limit_pos
  have hcanonical := isCanonical_unpack x.toModel
  rw [units]
  generalize x.toModel.unpack = u at *
  rcases u with s | _ | s | ⟨s, m, e, hm⟩
  · cases s <;> simp only [unitsOf, Sign.apply] <;> omega
  · simp only [unitsOf]
    omega
  · simp only [unitsOf]
    omega
  · exact (unitsOf_mem_limits hcanonical rfl).2.le

theorem units_of_infinite {x : Float} (hx : x.toModel.unpack = .infinity .positive) :
    units x = limit := by
  rw [units, hx]
  rfl

/-- What exceeds the finite doubles is rounded to the infinite one. -/
theorem roundedUnits_of_limit_le {z : ℤ} (h : limit ≤ z) : roundedUnits z = limit := by
  have hle : roundedUnits limit ≤ roundedUnits z := roundedUnits_mono h
  have hlimit : roundedUnits limit = limit :=
    roundedUnits_unitsOf (x := .infinity .positive) trivial
  have hpos := limit_pos
  have hle' : roundedUnits z ≤ limit := by
    rw [roundedUnits, Int.sign_eq_one_of_pos (by omega)]
    omega
  omega

/-- A sum of amounts that has an infinite one is infinite. -/
theorem IsAmount.add_infinite {x y : Float} (hx : IsAmount x) (hy : IsAmount y)
    (h : x.toModel.unpack = .infinity .positive ∨ y.toModel.unpack = .infinity .positive) :
    (x + y).isNaN = false ∧ units (x + y) = roundedUnits (units x + units y) := by
  have hunits : (limit : ℤ) ≤ units x + units y := by
    have hx' := hx.nonneg
    have hy' := hy.nonneg
    rcases h with h | h
    · rw [units_of_infinite h]
      omega
    · rw [units_of_infinite h]
      omega
  have hsum : (x + y).toModel.unpack = .infinity .positive := by
    change (Float.Model.pack (UnpackedFloat.add Format.binary64 x.toModel.unpack
      y.toModel.unpack)).unpack = _
    have hx' := hx.finite_or_infinite
    have hy' := hy.finite_or_infinite
    change x.toModel.unpack.isFinite = true ∨ _ at hx'
    change y.toModel.unpack.isFinite = true ∨ _ at hy'
    generalize x.toModel.unpack = u at *
    generalize y.toModel.unpack = v at *
    -- Only the negative infinite double would not be absorbed, and it is not an amount.
    rcases h with rfl | rfl
    · rcases v with s | _ | s | ⟨s, m, e, hm⟩
      case infinity => cases hy'.resolve_left (by simp [UnpackedFloat.isFinite]); rfl
      case notANumber => simp [UnpackedFloat.isFinite] at hy'
      case zero | finite => exact unpack_pack_infinity _
    · rcases u with s | _ | s | ⟨s, m, e, hm⟩
      case infinity => cases hx'.resolve_left (by simp [UnpackedFloat.isFinite]); rfl
      case notANumber => simp [UnpackedFloat.isFinite] at hx'
      case zero | finite => exact unpack_pack_infinity _
  refine ⟨?_, by rw [units_of_infinite hsum, roundedUnits_of_limit_le hunits]⟩
  change (x + y).toModel.unpack.isNaN = false
  rw [hsum]
  rfl

/-- The sum of two amounts is an amount, and its units are the sum of theirs, rounded. -/
theorem IsAmount.units_add {x y : Float} (hx : IsAmount x) (hy : IsAmount y) :
    (x + y).isNaN = false ∧ units (x + y) = roundedUnits (units x + units y) := by
  rcases hx.finite_or_infinite with hfin | hinf
  · rcases hy.finite_or_infinite with hfin' | hinf'
    · exact Double.units_add hfin hfin'
    · exact hx.add_infinite hy (.inr hinf')
  · exact hx.add_infinite hy (.inl hinf)

/-- Adding an amount makes nothing smaller. -/
theorem IsAmount.le_units_add {x y : Float} (hx : IsAmount x) (hy : IsAmount y) :
    units x ≤ units (x + y) := by
  calc units x = roundedUnits (units x) := (roundedUnits_unitsOf (isCanonical_unpack _)).symm
    _ ≤ roundedUnits (units x + units y) := roundedUnits_mono (by linarith [hy.nonneg])
    _ = units (x + y) := (hx.units_add hy).2.symm

theorem IsAmount.add {x y : Float} (hx : IsAmount x) (hy : IsAmount y) : IsAmount (x + y) :=
  ⟨(hx.units_add hy).1, hx.nonneg.trans (hx.le_units_add hy)⟩

/-- Adding the same amount respects the order. -/
theorem IsAmount.units_add_mono {x x' y : Float} (hx : IsAmount x) (hx' : IsAmount x')
    (hy : IsAmount y) (h : units x ≤ units x') : units (x + y) ≤ units (x' + y) := by
  rw [(hx.units_add hy).2, (hx'.units_add hy).2]
  exact roundedUnits_mono (by linarith)

/-! ### Counting -/

theorem units_one_pos : 0 < units 1.0 :=
  units_zero ▸ (lt_iff_units rfl rfl).1 (by decide)

theorem mul_units_one_le {k : ℕ} (hk : k ≤ 2 ^ 53) : k * units 1.0 ≤ limit := by
  have hle : k * 2 ^ 1074 ≤ limit :=
    calc k * 2 ^ 1074 ≤ 2 ^ 53 * 2 ^ 1074 := Nat.mul_le_mul_right _ hk
      _ ≤ limit := by
        rw [← pow_add, limit]
        gcongr
        · exact one_le_two
        · rw [limitExponent]
          omega
  rw [units_one, ← Nat.cast_mul]
  exact Nat.cast_le.2 hle

/-- A double that is a natural number. -/
structure Counts (k : ℕ) (x : Float) : Prop where
  isAmount : IsAmount x
  units_eq : units x = k * units 1.0

theorem counts_zero : Counts 0 0.0 :=
  ⟨isAmount_zero, by rw [units_zero, Nat.cast_zero, zero_mul]⟩

namespace Counts

variable {j k : ℕ} {x y : Float}

theorem units_le_iff (hx : Counts j x) (hy : Counts k y) : units x ≤ units y ↔ j ≤ k := by
  rw [hx.units_eq, hy.units_eq, mul_le_mul_iff_of_pos_right units_one_pos, Nat.cast_le]

theorem lt_limit (h : Counts k x) (hk : k < 2 ^ 53) : units x < limit := by
  have hle := mul_units_one_le (Nat.succ_le_of_lt hk)
  rw [Nat.cast_succ, add_mul, one_mul, ← h.units_eq] at hle
  exact (lt_add_of_pos_right _ units_one_pos).trans_le hle

/-- Counting in steps of one is exact as long as the count has `53` bits at most. -/
theorem add_one (h : Counts k x) (hk : k + 1 < 2 ^ 53) : Counts (k + 1) (x + 1.0) := by
  have hone : IsAmount 1.0 := ⟨rfl, units_one_pos.le⟩
  have hsum : units x + units 1.0 = Sign.positive.apply ((k + 1) * 2 ^ 1074 : ℕ) := by
    rw [h.units_eq, units_one, Sign.apply, Nat.cast_mul, Nat.cast_succ, add_mul, one_mul]
  have hle := mul_units_one_le hk.le
  rw [units_one, ← Nat.cast_mul, Nat.cast_le] at hle
  refine ⟨h.isAmount.add hone, ?_⟩
  rw [(h.isAmount.units_add hone).2, hsum, roundedUnits_apply, rounded_mul_pow hk,
    min_eq_right hle, units_one, ← Nat.cast_mul]
  rfl

end Counts

end GraphScript.Double
