import GraphScript.Proofs.Double.Integer
import GraphScript.Proofs.Expr.Reading
import GraphScript.Proofs.Json.Number

/-!
# Integers in decimal

An integer of fewer than `53` bits goes through decimal texts unharmed. Its numeral has the
integer for its value (`Environment.evaluate_toString`), and the text of the double is the numeral
again (`Environment.formatNumber_whole`), so that different integers have different names
(`toString_injective`).

The shortest digits that read back as an integer are searched for on grids of whole numbers only,
as the last of these, that of all whole numbers, has the integer itself. No other number on them
reads back as it: those below are exact, and those above are not rounded to less than the next
integer (`nearest_beq_iff`). So the search may stop early only where zeros follow
(`exists_shortest_whole`), and these are written again (`positionalText_ofCoefficient`).
-/

namespace GraphScript.Decimal

open Float.Model Double Text

/-! ### Digits -/

/-- A power of ten puts zeros behind the digits. -/
theorem toDigits_mul_pow {c : ℕ} (hc : 0 < c) (k : ℕ) :
    Nat.toDigits 10 (c * 10 ^ k) = Nat.toDigits 10 c ++ List.replicate k '0' := by
  induction k with
  | zero => simp
  | succ k ih =>
    have hpos : 0 < c * 10 ^ k := by positivity
    rw [pow_succ, ← mul_assoc, Nat.toDigits_of_base_le (by decide) (by omega),
      Nat.mul_div_cancel _ (by decide), Nat.mul_mod_left, ih, List.append_assoc,
      List.replicate_succ']
    rfl

/-- Zeros at the end of the digits come back from where the point stands. -/
theorem positionalText_ofCoefficient {c : ℕ} (hc : 0 < c) (e : ℕ) :
    plain.positionalText (.ofCoefficient c e) = Nat.toDigits 10 (c * 10 ^ e) := by
  set all := Nat.toDigits 10 c with hall
  set zeros := all.reverse.takeWhile (· == '0') with hzeros
  set digits := (all.reverse.dropWhile (· == '0')).reverse with hdigits
  have hsplit : all = digits ++ List.replicate zeros.length '0' := by
    have hzero : zeros.reverse = List.replicate zeros.length '0' := by
      rw [← List.length_reverse]
      refine List.eq_replicate_length.2 fun c hc => ?_
      have hmem : c ∈ all.reverse.takeWhile (· == '0') := List.mem_reverse.1 hc
      exact beq_iff_eq.1 (List.mem_takeWhile_imp (p := (· == '0')) hmem)
    rw [← hzero, hdigits, hzeros, ← List.reverse_append, List.takeWhile_append_dropWhile,
      List.reverse_reverse]
  have hlength : all.length = digits.length + zeros.length := by
    conv_lhs => rw [hsplit]
    rw [List.length_append, List.length_replicate]
  have hpos : 0 < all.length := List.length_pos_iff.2 Nat.toDigits_ne_nil
  -- The zeros that were dropped and those of the power fill up the places to the point.
  have hpoint : ((all.length : ℤ) + e).toNat = digits.length + (zeros.length + e) := by omega
  have hdefinition : Digits.ofCoefficient c e = ⟨digits, all.length + e⟩ := rfl
  rw [hdefinition, Style.positionalText]
  dsimp only
  rw [if_neg (by omega), hpoint, if_pos (by omega), Nat.add_sub_cancel_left, plain,
    List.append_nil, toDigits_mul_pow hc, ← hall, List.replicate_add, ← List.append_assoc, ← hsplit]

/-- The numeral of an integer. -/
theorem toList_toString (z : ℤ) :
    (toString z).toList = (if 0 ≤ z then [] else ['-']) ++ Nat.toDigits 10 z.natAbs := by
  rw [Int.toString_eq_repr, Int.repr_eq_if]
  split_ifs with hz
  · have habs : z.toNat = z.natAbs := by omega
    rw [habs, Nat.toList_repr, List.nil_append]
  · have habs : (-z).toNat = z.natAbs := by omega
    rw [habs, String.toList_append, Nat.toList_repr]
    rfl

theorem isDigit_or_of_mem_toString {z : ℤ} {c : Char} (h : c ∈ (toString z).toList) :
    c.isDigit = true ∨ c = '-' := by
  rw [toList_toString, List.mem_append] at h
  rcases h with hminus | hdigit
  · split_ifs at hminus
    · exact absurd hminus List.not_mem_nil
    · exact .inr (List.mem_singleton.1 hminus)
  · exact .inl (Nat.isDigit_of_mem_toDigits (by decide) (by decide) hdigit)

theorem isId_toString (z : ℤ) : IsId (toString z).toList := by
  refine isId_of_numerals ?_ fun c hc => (isDigit_or_of_mem_toString hc).imp_right .inr
  rw [toList_toString]
  exact List.append_ne_nil_of_right_ne_nil _ Nat.toDigits_ne_nil

/-- Different integers have different numerals. -/
theorem toString_injective : Function.Injective (toString : ℤ → String) := by
  intro z w h
  have hchars := congrArg String.toList h
  rw [toList_toString, toList_toString] at hchars
  have hminus (n : ℕ) (more : List Char) : Nat.toDigits 10 n ≠ '-' :: more := fun heq => by
    have hdigit : '-'.isDigit = true :=
      Nat.isDigit_of_mem_toDigits (by decide) (by decide) (heq ▸ List.mem_cons_self)
    cases hdigit
  have habs (heq : Nat.toDigits 10 z.natAbs = Nat.toDigits 10 w.natAbs) : z.natAbs = w.natAbs := by
    rw [← valueOf_toDigits z.natAbs, heq, valueOf_toDigits]
  split_ifs at hchars with hz hw hw
  · have := habs hchars
    omega
  · exact absurd hchars (hminus _ _)
  · exact absurd hchars.symm (hminus _ _)
  · have := habs (List.cons.inj hchars).2
    omega

/-! ### Reading -/

theorem nearest_zero (n : ℕ) : nearest n 0 = Float.ofNat n := by
  rw [nearest]
  split_ifs with hzero hlarge hsmall hneg
  · subst hzero
    rfl
  · omega
  · omega
  · omega
  · rfl

theorem units_nearest {c e : ℕ} (hpos : 0 < c) (hc : c < 2 ^ 53) (he : e ≤ 22) :
    (nearest c e).isNaN = false ∧
      units (nearest c e) = roundedUnits ((c * 10 ^ e : ℕ) * units 1.0) := by
  rw [nearest, if_neg hpos.ne', if_neg (by omega), if_neg (by omega), if_neg (by omega),
    Int.toNat_natCast]
  exact units_ofScientific hpos hc he

/-- Only an integer itself reads back as its double. -/
theorem nearest_beq_iff {n c e : ℕ} {x : Float} (hx : Whole n x) (hn : n + 1 < 2 ^ 53)
    (hpos : 0 < c) (hc : c < 2 ^ 53) (he : e ≤ 22) :
    (nearest c e == x) = true ↔ c * 10 ^ e = n := by
  obtain ⟨hnan, hunits⟩ := units_nearest hpos hc he
  rw [beq_iff_units hnan (isNaN_of_isFinite hx.isFinite), hunits, hx.units_eq]
  have hexact {k : ℕ} (hk : k < 2 ^ 53) : roundedUnits ((k : ℤ) * units 1.0) = k * units 1.0 :=
    (roundedUnits_mul_one hk).1
  rcases Nat.lt_or_ge n (c * 10 ^ e) with hlt | hle
  · -- Rounding cannot bring it below the next integer.
    refine iff_of_false (fun heq => ?_) hlt.ne'
    have hmono : roundedUnits (((n + 1 : ℕ) : ℤ) * units 1.0) ≤
        roundedUnits (((c * 10 ^ e : ℕ) : ℤ) * units 1.0) :=
      roundedUnits_mono (mul_le_mul_of_nonneg_right (by exact_mod_cast hlt) units_one_pos.le)
    rw [hexact hn, heq, Nat.cast_succ, add_mul, one_mul] at hmono
    linarith [units_one_pos]
  · rw [hexact (by omega), mul_left_inj' units_one_pos.ne', Nat.cast_inj]

/-- The digits of a number denote its double. -/
theorem denotes_toDigits (n : ℕ) : Expr.Denotes (Nat.toDigits 10 n) (Float.ofNat n) := by
  have hall : (Nat.toDigits 10 n).all Char.isDigit = true :=
    List.all_eq_true.2 fun c hc => Nat.isDigit_of_mem_toDigits (by decide) (by decide) hc
  obtain ⟨x, hdenotes, hnumber⟩ := Expr.ofDigits_whole Nat.toDigits_ne_nil hall
  have hvalue : Expr.ofDigits (Nat.toDigits 10 n) [] = .number (nearest n 0) := by
    rw [Expr.ofDigits, List.append_nil, valueOf_toDigits]
    rfl
  rw [hvalue, Expr.number.injEq, nearest_zero] at hnumber
  rwa [hnumber]

/-! ### Writing -/

section Writing

variable {n : ℕ} {x : Float}

/-- A positive integer as a numerator and a denominator. -/
theorem exists_ratio (hx : Whole n x) (hpos : 0 < n) : ∃ d, 0 < d ∧ ratio x = (n * d, d) := by
  obtain ⟨m, i, hm, hunpack, hfull, hbits, heq⟩ := hx.exists_unpack hpos
  have hpacked : IsPacked x.toBits.toNat .positive m (i - 52) := isPacked_of_unpack hunpack
  have hexponent : (x.toBits.toNat >>> 52) % 2048 = i + 1023 := by
    rw [Nat.shiftRight_eq_div_pow]
    refine hpacked.exponent.trans ?_
    rw [if_neg hfull.not_gt]
    omega
  have hmantissa : leadingBit + x.toBits.toNat % leadingBit = m := by
    have hleading : leadingBit = 2 ^ 52 := rfl
    rw [hleading, hpacked.mantissa]
    omega
  have hbinary : binary x = (m, (i : ℤ) - 52) := by
    rw [binary, hexponent, hmantissa, if_neg (by omega), Prod.mk.injEq]
    exact ⟨rfl, by omega⟩
  refine ⟨2 ^ (-((i : ℤ) - 52)).toNat, Nat.two_pow_pos _, ?_⟩
  rw [ratio, hbinary]
  dsimp only
  rw [Nat.shiftLeft_eq, Nat.shiftLeft_eq, one_mul, Prod.mk.injEq]
  refine ⟨?_, rfl⟩
  -- A negative exponent goes to the denominator, any other one to the numerator.
  rcases le_total i 52 with hi | hi
  · have hleft : ((i : ℤ) - 52).toNat = 0 := by omega
    have hright : (-((i : ℤ) - 52)).toNat = 52 - i := by omega
    rw [hleft, hright, pow_zero, mul_one]
    refine Nat.eq_of_mul_eq_mul_right (Nat.two_pow_pos i) ?_
    rw [heq, mul_assoc, ← pow_add, Nat.sub_add_cancel hi]
  · have hleft : ((i : ℤ) - 52).toNat = i - 52 := by omega
    have hright : (-((i : ℤ) - 52)).toNat = 0 := by omega
    rw [hleft, hright, pow_zero, mul_one]
    refine Nat.eq_of_mul_eq_mul_right (Nat.two_pow_pos 52) ?_
    rw [← heq, mul_assoc, ← pow_add, Nat.sub_add_cancel hi]

/-- The point stands behind all digits. -/
theorem pointOf_whole (hx : Whole n x) (hpos : 0 < n) :
    pointOf x = (Nat.toDigits 10 n).length := by
  obtain ⟨d, hd, hratio⟩ := exists_ratio hx hpos
  have hlength {k p : ℕ} (hp : Nat.pow 10 k = p) :
      (Nat.toDigits 10 (n * d * p / d)).length = (Nat.toDigits 10 n).length + k := by
    rw [← hp, mul_right_comm, Nat.mul_div_cancel _ hd, Nat.pow_eq, toDigits_mul_pow hpos,
      List.length_append, List.length_replicate]
  rw [pointOf, hratio]
  dsimp only
  generalize hp : Nat.pow 10 400 = p
  rw [hlength hp, Nat.cast_add]
  exact add_sub_cancel_right _ _

/-- What is found on a grid of whole numbers for an integer is the integer itself. -/
theorem of_onGrid? {tie : Tie} (hx : Whole n x) (hn : n + 1 < 2 ^ 53) {e : ℕ} (hle : 10 ^ e ≤ n)
    (he : e ≤ 22) {d : Digits} (h : onGrid? tie x e = some d) :
    ∃ c, 0 < c ∧ c * 10 ^ e = n ∧ d = .ofCoefficient c e := by
  have hpos : 0 < n := lt_of_lt_of_le (by positivity) hle
  obtain ⟨scale, hscale, hratio⟩ := exists_ratio hx hpos
  have hbelow : n * scale * Nat.pow 10 (-(e : ℤ)).toNat / (scale * Nat.pow 10 (e : ℤ).toNat) =
      n / 10 ^ e := by
    rw [Int.toNat_neg_natCast, Int.toNat_natCast, Nat.pow_eq, Nat.pow_eq, pow_zero, mul_one,
      mul_comm n, Nat.mul_div_mul_left _ _ hscale]
  have hfirst : 0 < n / 10 ^ e := Nat.div_pos hle (by positivity)
  have hlow : n / 10 ^ e ≤ n := Nat.div_le_self _ _
  have hfound {c : ℕ} (hc : 0 < c) (hc' : c < 2 ^ 53) (hread : (nearest c e == x) = true)
      (hd : some (Digits.ofCoefficient c e) = some d) :
      ∃ c, 0 < c ∧ c * 10 ^ e = n ∧ d = .ofCoefficient c e :=
    ⟨c, hc, (nearest_beq_iff hx hn hc hc' he).1 hread, (Option.some_inj.1 hd).symm⟩
  -- Of the neighbours below and above, only one that reads back is ever taken.
  simp only [onGrid?, hratio, hbelow] at h
  split_ifs at h with hupper hread hread hread hread
  · exact hfound (by omega) (by omega) hread h
  · exact hfound hfirst (by omega) hread h
  · exact hfound hfirst (by omega) hread h
  · exact hfound (by omega) (by omega) hread h

/-- On the grid of all whole numbers, an integer is found. -/
theorem onGrid?_zero_ne_none {tie : Tie} (hx : Whole n x) (hn : n + 1 < 2 ^ 53) (hpos : 0 < n) :
    onGrid? tie x 0 ≠ none := by
  obtain ⟨scale, hscale, hratio⟩ := exists_ratio hx hpos
  have hbelow :
      n * scale * Nat.pow 10 (-(0 : ℤ)).toNat / (scale * Nat.pow 10 (0 : ℤ).toNat) = n := by
    rw [neg_zero, Int.toNat_zero, Nat.pow_eq, pow_zero, mul_one, mul_one,
      Nat.mul_div_cancel _ hscale]
  have hread : (nearest n 0 == x) = true :=
    (nearest_beq_iff (e := 0) hx hn hpos (by omega) (by omega)).2 (mul_one n)
  intro h
  simp only [onGrid?, hratio, hbelow] at h
  split_ifs at h

/-- The shortest digits of an integer are its digits, up to zeros at the end. -/
theorem exists_shortest_whole {tie : Tie} (hx : Whole n x) (hn : n + 1 < 2 ^ 53) (hpos : 0 < n) :
    ∃ c e : ℕ, 0 < c ∧ c * 10 ^ e = n ∧ shortest tie x = .ofCoefficient c e := by
  set length := (Nat.toDigits 10 n).length with hlength
  have hlength_pos : 0 < length := Nat.length_toDigits_pos
  have hlength_le : length ≤ 16 :=
    (Nat.length_toDigits_le_iff (by decide) (by decide)).2 (lt_of_lt_of_le hn (by norm_num)).le
  have hle {e : ℕ} (he : e < length) : 10 ^ e ≤ n := by
    rcases Nat.eq_zero_or_pos e with rfl | hpos'
    · exact hpos
    · exact not_lt.1 fun hlt => he.not_ge ((Nat.length_toDigits_le_iff (by decide) hpos').2 hlt)
  set grid := fun k : ℕ => onGrid? tie x (length - (k + 1 : ℕ)) with hgrid
  have hexponent {k : ℕ} (hk : k < length) :
      (length : ℤ) - (k + 1 : ℕ) = (length - (k + 1) : ℕ) := by omega
  -- The search ends on the grid of all whole numbers at the latest.
  obtain ⟨d, hd⟩ : ∃ d, (List.range length).findSome? grid = some d := by
    rw [← Option.ne_none_iff_exists', ne_eq, List.findSome?_eq_none_iff]
    intro hnone
    have hlast := hnone (length - 1) (List.mem_range.2 (by omega))
    have hzero : (length : ℤ) - (length - 1 + 1 : ℕ) = 0 := by omega
    rw [hgrid] at hlast
    dsimp only at hlast
    rw [hzero] at hlast
    exact onGrid?_zero_ne_none hx hn hpos hlast
  obtain ⟨k, hk, hfound⟩ := List.exists_of_findSome?_eq_some hd
  rw [List.mem_range] at hk
  rw [hgrid] at hfound
  dsimp only at hfound
  rw [hexponent hk] at hfound
  obtain ⟨c, hc, heq, rfl⟩ := of_onGrid? hx hn (hle (by omega)) (by omega) hfound
  refine ⟨c, length - (k + 1), hc, heq, ?_⟩
  -- What the search would look at after that makes no difference.
  obtain ⟨more, hmore⟩ : ∃ more, 17 = length + more := ⟨17 - length, by omega⟩
  rw [shortest, pointOf_whole hx hpos, ← hlength, hmore, List.range_add, List.findSome?_append, hd]
  rfl

end Writing

/-- The first bit tells the sign of an integer. -/
theorem toBits_shiftRight_eq_zero_iff {z : ℤ} {x : Float} (hx : Whole z x) (hz : z ≠ 0) :
    x.toBits >>> 63 = 0 ↔ 0 < z := by
  obtain ⟨s, m, e, hm, hunpack, hsign⟩ := hx.exists_finite hz
  have hpacked : IsPacked x.toBits.toNat s m e := isPacked_of_unpack hunpack
  rw [← hsign, hpacked.sign, ← UInt64.toNat_inj, UInt64.toNat_shiftRight, Nat.shiftRight_eq_div_pow]
  rfl

/-- The text of an integer other than zero is its numeral. -/
theorem display_whole {z : ℤ} {x : Float} (hx : Whole z x) (hz : z ≠ 0)
    (hbits : z.natAbs + 1 < 2 ^ 53) : display x = toString z := by
  have hnan := isNaN_of_isFinite hx.isFinite
  have hinf : x.isInf = false := by
    obtain ⟨s, m, e, hm, hunpack, -⟩ := hx.exists_finite hz
    change x.toModel.unpack.isInf = false
    rw [hunpack]
    rfl
  have hzero : (x == 0.0) = false := by
    rw [Bool.eq_false_iff, ne_eq, beq_iff_units hnan rfl, units_zero, hx.units_eq]
    exact mul_units_one_ne_zero hz
  have hpos : 0 < z.natAbs := Int.natAbs_pos.2 hz
  obtain ⟨c, e, hc, heq, hshortest⟩ : ∃ c e : ℕ, 0 < c ∧ c * 10 ^ e = z.natAbs ∧
      shortest .up x.abs = .ofCoefficient c e := exists_shortest_whole (hx.abs hz) hbits hpos
  have htext : plain.positionalText (shortest .up x.abs) = Nat.toDigits 10 z.natAbs := by
    rw [hshortest, positionalText_ofCoefficient hc, heq]
  have hwrite : plain.write x = (if 0 < z then [] else ['-']) ++ Nat.toDigits 10 z.natAbs := by
    have hminus : (if x.toBits >>> 63 = 0 then [] else ['-'] : List Char) =
        if 0 < z then [] else ['-'] := by
      simp only [toBits_shiftRight_eq_zero_iff hx hz]
    have hpositional (point : ℤ) : plain.positional point = true := rfl
    have htie : plain.tie = .up := rfl
    rw [Style.write, hzero, hminus, if_neg Bool.false_ne_true, htie]
    dsimp only
    rw [if_pos (hpositional _), htext]
  have hsign : 0 < z ↔ 0 ≤ z := by omega
  rw [display, hnan, hinf, if_neg Bool.false_ne_true, if_neg Bool.false_ne_true,
    ← String.toList_inj, String.toList_ofList, hwrite, toList_toString]
  simp only [hsign]

end GraphScript.Decimal

namespace GraphScript.Environment

open Double Text

/-- The text of an integer in names is its numeral. -/
theorem formatNumber_whole {z : ℤ} {x : Float} (hx : Whole z x) (hbits : z.natAbs + 1 < 2 ^ 53) :
    formatNumber x = toString z := by
  have hnan := isNaN_of_isFinite hx.isFinite
  rw [formatNumber]
  split_ifs with hzero
  · rw [beq_iff_units hnan rfl, units_zero, hx.units_eq] at hzero
    obtain rfl : z = 0 := not_not.1 fun hz => mul_units_one_ne_zero hz hzero
    rfl
  · refine Decimal.display_whole hx ?_ hbits
    rintro rfl
    refine hzero ((beq_iff_units hnan rfl).2 ?_)
    rw [hx.units_eq, zero_mul, units_zero]

/-- The numeral of an integer of `53` bits has the integer for its value. -/
theorem evaluate_toString (env : Environment) (syntaxReason : String → String) {z : ℤ}
    (hz : z.natAbs < 2 ^ 53) : env.evaluate syntaxReason (toString z) = .ok (Float.ofInt z) := by
  have hfin := (whole_ofInt hz).isFinite
  have hdigits (n : ℕ) : ∀ c ∈ Nat.toDigits 10 n, c.isDigit = true := fun c hc =>
    Nat.isDigit_of_mem_toDigits (by decide) (by decide) hc
  have htrim : trim (toString z).toList = (toString z).toList :=
    trim_of_isWord (Decimal.isId_toString z).toIsWord
  have hatom (n : ℕ) : Expr.IsUnary (Nat.toDigits 10 n) (.number (Float.ofNat n)) :=
    .operand (.numeral (Decimal.denotes_toDigits n))
  have hexcess : Expr.excess? (toString z).toList = none := by
    rw [Expr.excess?, Decimal.toList_toString]
    split_ifs
    · exact Expr.excessFrom?_of_all (by decide) (hdigits _)
    · rw [List.singleton_append, Expr.excessFrom?, if_neg (by decide), if_neg (by decide),
        if_pos (by decide), if_pos (by decide), Expr.excessFrom?_of_all (by decide) (hdigits _)]
  obtain ⟨e, hsum, heval⟩ : ∃ e, Expr.IsSum (toString z).toList e ∧
      e.eval env.get? = .ok (Float.ofInt z) := by
    rw [Decimal.toList_toString]
    cases z with
    | ofNat n => exact ⟨_, .operand (.operand (hatom n)), rfl⟩
    | negSucc n =>
      -- There are no negative numerals: the minus is an operator in front of one.
      have hminus := @Expr.Signed.minus Expr.Atom [] _ _ rfl (hatom (n + 1))
      exact ⟨_, .operand (.operand hminus), rfl⟩
  have hparse : Expr.parse? (toString z).toList = some e := by
    rwa [Expr.parse?_eq_some_iff, htrim]
  simp only [evaluate, htrim, hexcess, hparse, heval, hfin, if_true]

end GraphScript.Environment
