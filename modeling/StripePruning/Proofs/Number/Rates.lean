import StripePruning.Proofs.Number.Doubles

/-!
# Rates lie between zero and one

A rate is the quotient of the doubles of two natural numbers.  Both conversions and
the quotient are rounded, and none of this leads out of the unit interval.

* `unpack_toFloat` is the double of a natural number.
* `key` numbers the doubles in their order.  `key_rounded_le` says that the
  conversion keeps the order.
* `exists_div_eq_carried` is the quotient of two doubles, and `exists_full_div_toFloat`
  the one of two natural numbers: it lies on the same side of one as they lie in their
  order.  `toFloat_div_toFloat_mem` and `one_le_toFloat_div_toFloat` are the two sides.
-/

namespace StripePruning

namespace Double

open Float.Model Float.Model.UnpackedFloat

/-! ## Constants and products -/

theorem full_two_pow : Full (2 ^ 52) := ⟨by decide, by decide⟩

theorem unpack_zero : (0.0 : Float).toModel.unpack = .zero .positive := by
  have hzero : (0.0 : Float).toModel = Float.Model.pack (.zero .positive) := by decide +kernel
  rw [hzero, unpack_pack_zero]

theorem unpack_one : (1.0 : Float).toModel.unpack = ofParts (2 ^ 52) (-52) := by
  have hone : (1.0 : Float).toModel = Float.Model.pack (ofParts (2 ^ 52) (-52)) := by
    decide +kernel
  rw [hone, full_two_pow.unpack_pack (by decide) (by decide)]

theorem mul_ofParts {m m' : Nat} (hm : 0 < m) (hm' : 0 < m') (e e' : Int) :
    UnpackedFloat.mul Format.binary64 (ofParts m e) (ofParts m' e')
      = roundWithAccuracy Format.binary64 .positive (m * m') (e + e') .exact := by
  rw [ofParts_of_pos hm, ofParts_of_pos hm']
  rfl

/-! ## Natural numbers as doubles -/

variable {n n' : Nat}

theorem unpack_toFloat_zero : (0 : Nat).toFloat.toModel.unpack = .zero .positive := by
  have hzero : (0 : Nat).toFloat.toModel = Float.Model.pack (.zero .positive) := by decide +kernel
  rw [hzero, unpack_pack_zero]

/-- The mantissa of a natural number of 53 bits or less. -/
theorem full_mul_two_pow (hpos : 0 < n) (hlt : n < 2 ^ 53) : Full (n * 2 ^ (52 - n.log2)) := by
  have hlog : n.log2 < 53 := (Nat.log2_lt (Nat.ne_of_gt hpos)).2 hlt
  rw [full_iff (Nat.mul_pos hpos (Nat.two_pow_pos _)), log2_mul_two_pow hpos]
  omega

/-- A natural number of 53 bits or less is converted without loss. -/
theorem ofUInt64_eq (hpos : 0 < n) (hlt : n < 2 ^ 53) :
    UnpackedFloat.ofUInt64 Format.binary64 n.toUInt64
      = ofParts (n * 2 ^ (52 - n.log2)) ((n.log2 : Int) - 52) := by
  have hlog : n.log2 < 53 := (Nat.log2_lt (Nat.ne_of_gt hpos)).2 hlt
  have hnat : n.toUInt64.toNat = n := UInt64.toNat_ofNat_of_lt (Nat.lt_trans hlt (by decide))
  have hpositive : compare (n : Int) 0 = .gt := by
    rw [Int.compare_eq_gt]
    omega
  have htarget : Format.binary64.targetExponent (totalExponent n 0) = (n.log2 : Int) - 52 := by
    simp only [Format.targetExponent, totalExponent, Format.mantissaBits, Format.minExponent]
    omega
  have hdecrease : decreaseExponent n 0 ((n.log2 : Int) - 52)
      = (n * 2 ^ (52 - n.log2) * 2 ^ 0, (n.log2 : Int) - 52) := by
    have hshift : (0 - ((n.log2 : Int) - 52)).toNat = 52 - n.log2 := by omega
    rw [decreaseExponent, hshift, Nat.shiftLeft_eq, Nat.pow_zero, Nat.mul_one]
    congr 1
    omega
  rw [UnpackedFloat.ofUInt64, hnat, UnpackedFloat.ofNat, UnpackedFloat.ofInt,
    UnpackedFloat.normalize, hpositive]
  show round Format.binary64 .positive n 0 = _
  rw [UnpackedFloat.round, htarget, hdecrease]
  show roundWithAccuracy Format.binary64 .positive (n * 2 ^ (52 - n.log2) * 2 ^ 0)
    ((n.log2 : Int) - 52) .exact = _
  rw [(full_mul_two_pow hpos hlt).roundWithAccuracy_exact (by omega)]
  simp

/-- A natural number of 53 bits or less is converted and then multiplied by one. -/
theorem unpack_toFloat_of_small (hpos : 0 < n) (hlt : n < 2 ^ 53) :
    n.toFloat.toModel.unpack = ofParts (n * 2 ^ (52 - n.log2)) ((n.log2 : Int) - 52) := by
  have hlog : n.log2 < 53 := (Nat.log2_lt (Nat.ne_of_gt hpos)).2 hlt
  have hfull := full_mul_two_pow hpos hlt
  have hproduct : n.toFloat = n.toUInt64.toFloat * 1.0 := by
    have hone : Float.ofBits 0x3FF0000000000000 = 1.0 := by decide +kernel
    rw [← hone]
    show Float.ofScientific n false 0 = _
    rw [Float.ofScientific, dif_pos ⟨hlt, by decide⟩]
    rfl
  have hexponent : (n.log2 : Int) - 52 + -52 + (52 : Nat) = (n.log2 : Int) - 52 := by omega
  rw [hproduct]
  show (Float.Model.pack (UnpackedFloat.mul Format.binary64
    (Float.Model.pack (UnpackedFloat.ofUInt64 Format.binary64 n.toUInt64)).unpack
    (1.0 : Float).toModel.unpack)).unpack = _
  rw [ofUInt64_eq hpos hlt, hfull.unpack_pack (by omega) (by omega), unpack_one,
    mul_ofParts hfull.pos full_two_pow.pos, hfull.roundWithAccuracy_exact (by omega), hexponent,
    hfull.unpack_pack (by omega) (by omega)]

/-- A natural number of more than 53 bits is rounded. -/
theorem unpack_toFloat_of_large (hlarge : 2 ^ 53 ≤ n) (hlt : n < 2 ^ 64) :
    n.toFloat.toModel.unpack = carried (rounded (n * 2 ^ 53) .exact) ((n.log2 : Int) - 52) := by
  have hne : n ≠ 0 := by omega
  have hlog : n.log2 < 64 := (Nat.log2_lt hne).2 hlt
  have hmul : (n * 2 ^ 53).log2 = n.log2 + 53 := log2_mul_two_pow (Nat.pos_of_ne_zero hne) 53
  have hmodel : n.toFloat = Float.ofModel (Float.Model.ofScientific n 0) := by
    show Float.ofScientific n false 0 = _
    rw [Float.ofScientific, dif_neg (by omega)]
    rfl
  have hround : UnpackedFloat.ofScientific Format.binary64 n 0
      = roundWithAccuracy Format.binary64 .positive (n * 2 ^ 53) (-53) .exact := by
    have hsmall : ¬ (0 : Int) < -((2 ^ 11 : Int) + n.log2) := by omega
    rw [UnpackedFloat.ofScientific, dif_neg hne, if_neg (by decide), if_neg hsmall,
      if_pos (by decide)]
    show roundWithAccuracy Format.binary64 .positive (n <<< 53 * 1) (-53 + 0) .exact = _
    rw [Nat.mul_one, Nat.shiftLeft_eq]
    rfl
  have hexponent : -53 + (((n * 2 ^ 53).log2 - 52 : Nat) : Int) = (n.log2 : Int) - 52 := by
    omega
  obtain ⟨hlower, hupper⟩ := rounded_bounds (m := n * 2 ^ 53) (by omega) .exact
  rw [hmodel]
  show (Float.Model.pack (UnpackedFloat.ofScientific Format.binary64 n 0)).unpack = _
  rw [hround, roundWithAccuracy_eq (by omega) (by omega), hexponent,
    unpack_pack_carried hlower hupper (by omega) (by omega)]

/-- The double of a natural number, whether it is rounded or not. -/
theorem unpack_toFloat (hpos : 0 < n) (hlt : n < 2 ^ 64) :
    n.toFloat.toModel.unpack = carried (rounded (n * 2 ^ 53) .exact) ((n.log2 : Int) - 52) := by
  rcases Nat.lt_or_ge n (2 ^ 53) with hsmall | hlarge
  · have hlog : n.log2 < 53 := (Nat.log2_lt (Nat.ne_of_gt hpos)).2 hsmall
    have hfull := full_mul_two_pow hpos hsmall
    have hsplit : n * 2 ^ 53 = n * 2 ^ (52 - n.log2) * 2 ^ (n.log2 + 1) := by
      rw [Nat.mul_assoc, ← Nat.pow_add]
      congr 2
      omega
    rw [unpack_toFloat_of_small hpos hsmall, hsplit, hfull.rounded_eq, hfull.carried_eq]
  · exact unpack_toFloat_of_large hlarge hlt

/-! ## The order -/

/-- The place of `m * 2 ^ e` in the order of the numbers with full mantissas.  A bit that goes to
the exponent keeps it. -/
def key (m : Nat) (e : Int) : Int := m + 2 ^ 52 * e

theorem le_of_unpack {x y : Float} (h : x.toModel.unpack.le y.toModel.unpack = true) : x ≤ y :=
  decide_eq_true h

theorem zero_le_ofParts {m : Nat} (hm : 0 < m) (e : Int) :
    (UnpackedFloat.zero .positive).le (ofParts m e) = true := by
  rw [ofParts_of_pos hm]
  rfl

theorem Full.le_ofParts {m m' : Nat} (hm : Full m) (hm' : Full m') {e e' : Int}
    (h : key m e ≤ key m' e') : (ofParts m e).le (ofParts m' e') = true := by
  have hlower := hm.lower
  have hupper' := hm'.upper
  rw [ofParts_of_pos hm.pos, ofParts_of_pos hm'.pos]
  show ((compare e e').then (compare m m')).isLE = true
  rw [key, key] at h
  rcases Int.lt_or_le e e' with hless | hle
  · rw [Int.compare_eq_lt.2 hless]
    rfl
  · obtain rfl : e = e' := by omega
    rw [Int.compare_eq_eq.2 rfl]
    show (compare m m').isLE = true
    rw [Nat.isLE_compare]
    omega

/-- A carried number has a full mantissa, and its place is kept. -/
theorem exists_full_eq_carried {m : Nat} (hlower : 2 ^ 52 ≤ m) (hupper : m ≤ 2 ^ 53) (e : Int) :
    ∃ m' e', carried m e = ofParts m' e' ∧ Full m' ∧ e ≤ e' ∧ e' ≤ e + 1 ∧
      key m' e' = key m e := by
  by_cases hcarry : m = 2 ^ 53
  · refine ⟨2 ^ 52, e + 1, if_pos hcarry, full_two_pow, by omega, by omega, ?_⟩
    rw [key, key, hcarry]
    omega
  · have hfull := full_of_le hlower hupper hcarry
    exact ⟨m, e, hfull.carried_eq e, hfull, by omega, by omega, rfl⟩

/-- Natural numbers keep their order when they are rounded. -/
theorem key_rounded_le (hpos : 0 < n) (hle : n ≤ n') :
    key (rounded (n * 2 ^ 53) .exact) ((n.log2 : Int) - 52)
      ≤ key (rounded (n' * 2 ^ 53) .exact) ((n'.log2 : Int) - 52) := by
  have hpos' : 0 < n' := Nat.lt_of_lt_of_le hpos hle
  have hmul : (n * 2 ^ 53).log2 = n.log2 + 53 := log2_mul_two_pow hpos 53
  have hmul' : (n' * 2 ^ 53).log2 = n'.log2 + 53 := log2_mul_two_pow hpos' 53
  have hlog : n.log2 ≤ n'.log2 := by
    rw [Nat.le_log2 (Nat.ne_of_gt hpos')]
    exact Nat.le_trans (Nat.log2_self_le (Nat.ne_of_gt hpos)) hle
  rw [key, key]
  rcases Nat.lt_or_eq_of_le hlog with hless | heq
  · obtain ⟨-, hupper⟩ := rounded_bounds (m := n * 2 ^ 53) (by omega) .exact
    obtain ⟨hlower, -⟩ := rounded_bounds (m := n' * 2 ^ 53) (by omega) .exact
    omega
  -- With as many bits both are shifted equally far.
  · have hrounded : rounded (n * 2 ^ 53) .exact ≤ rounded (n' * 2 ^ 53) .exact := by
      rw [rounded, rounded, hmul, hmul', heq]
      refine roundedMantissa_le (place_shiftRight_le ?_ _)
      simp only [place, ExtendedMantissa.ofMantissaAndAccuracy]
      omega
    omega

/-! ## Quotients -/

/-- The quotient of two full mantissas, with 53 more bits for the first one, has 53 bits, or 54 if
the first one is not less. -/
theorem Full.log2_quotient {m m' : Nat} (hm : Full m) (hm' : Full m') :
    (m * 2 ^ 53 / m').log2 = if m < m' then 52 else 53 := by
  have hpos := hm'.pos
  obtain ⟨hlower, hupper⟩ := hm
  obtain ⟨hlower', hupper'⟩ := hm'
  have hquotient : 2 ^ 52 ≤ m * 2 ^ 53 / m' := by
    rw [Nat.le_div_iff_mul_le hpos]
    omega
  rw [Nat.log2_eq_iff (Nat.ne_of_gt (Nat.lt_of_lt_of_le (Nat.two_pow_pos 52) hquotient))]
  split
  · refine ⟨hquotient, ?_⟩
    rw [Nat.div_lt_iff_lt_mul hpos]
    omega
  · rw [Nat.le_div_iff_mul_le hpos, Nat.div_lt_iff_lt_mul hpos]
    omega

/-- The quotient of a full mantissa by itself is rounded to one. -/
theorem Full.rounded_quotient_self {m : Nat} (hm : Full m) :
    rounded (m * 2 ^ 53 / m) (accuracyOfFraction (m * 2 ^ 53 % m) m) = 2 ^ 52 := by
  have hdiv : m * 2 ^ 53 / m = 2 ^ 52 * 2 ^ 1 := Nat.mul_div_cancel_left _ hm.pos
  rw [hdiv, Nat.mul_mod_right]
  exact full_two_pow.rounded_eq 1

theorem Full.div_ofParts {m m' : Nat} (hm : Full m) (hm' : Full m') {e e' : Int}
    (he : -1021 ≤ e - e') :
    UnpackedFloat.div Format.binary64 (ofParts m e) (ofParts m' e')
      = roundWithAccuracy Format.binary64 .positive (m * 2 ^ 53 / m') (e - e' - 53)
        (accuracyOfFraction (m * 2 ^ 53 % m') m') := by
  have htarget : min (e - e') (Format.binary64.targetExponent
      (totalExponent m e - totalExponent m' e')) = e - e' - 53 := by
    simp only [Format.targetExponent, totalExponent, Format.mantissaBits, Format.minExponent,
      hm.log2_eq, hm'.log2_eq]
    omega
  have hshift : (e - e' - (e - e' - 53)).toNat = 53 := by omega
  have hcore : divCore Format.binary64 m e m' e'
      = (m * 2 ^ 53 / m', e - e' - 53, accuracyOfFraction (m * 2 ^ 53 % m') m') := by
    rw [divCore, htarget, hshift, Nat.shiftLeft_eq]
  rw [ofParts_of_pos hm.pos, ofParts_of_pos hm'.pos, UnpackedFloat.div, hcore]
  rfl

/-- The quotient of two numbers that are not too far apart lies on the same side of one as they lie
in their order. -/
theorem Full.exists_div_eq_carried {m m' : Nat} (hm : Full m) (hm' : Full m') {e e' : Int}
    (he : -1000 ≤ e - e') (he' : e - e' ≤ 1000) :
    ∃ r t, UnpackedFloat.div Format.binary64 (ofParts m e) (ofParts m' e') = carried r t ∧
      2 ^ 52 ≤ r ∧ r ≤ 2 ^ 53 ∧ -1074 ≤ t ∧ t ≤ 970 ∧
      (key m e ≤ key m' e' → key r t ≤ key (2 ^ 52) (-52)) ∧
      (key m' e' ≤ key m e → key (2 ^ 52) (-52) ≤ key r t) := by
  have hlower := hm.lower
  have hupper := hm.upper
  have hlower' := hm'.lower
  have hupper' := hm'.upper
  have hlog := hm.log2_quotient hm'
  have hbits : 52 ≤ (m * 2 ^ 53 / m').log2 ∧ (m * 2 ^ 53 / m').log2 ≤ 53 := by
    split at hlog <;> omega
  obtain ⟨hrlower, hrupper⟩ := rounded_bounds hbits.1 (accuracyOfFraction (m * 2 ^ 53 % m') m')
  refine ⟨_, _, (hm.div_ofParts hm' (by omega)).trans
    (roundWithAccuracy_eq hbits.1 (by omega) _), hrlower, hrupper, by omega, by omega, ?_, ?_⟩
  · intro h
    rw [key, key] at h ⊢
    rcases Int.lt_or_eq_of_le (by omega : e ≤ e') with hless | rfl
    · omega
    · rcases Nat.lt_or_eq_of_le (by omega : m ≤ m') with hless | rfl
      · rw [if_pos hless] at hlog
        omega
      -- Only the quotient of equal numbers reaches one, and it is exact.
      · rw [if_neg (Nat.lt_irrefl m)] at hlog
        rw [hm.rounded_quotient_self, hlog]
        omega
  · intro h
    rw [key, key] at h ⊢
    rcases Int.lt_or_eq_of_le (by omega : e' ≤ e) with hless | rfl
    · omega
    · rw [if_neg (by omega)] at hlog
      omega

/-- The double of a positive natural number has a full mantissa. -/
theorem exists_full_toFloat (hpos : 0 < n) (hlt : n < 2 ^ 64) :
    ∃ m e, n.toFloat.toModel.unpack = ofParts m e ∧ Full m ∧ -52 ≤ e ∧ e ≤ 12 ∧
      key m e = key (rounded (n * 2 ^ 53) .exact) ((n.log2 : Int) - 52) := by
  have hlog : n.log2 < 64 := (Nat.log2_lt (Nat.ne_of_gt hpos)).2 hlt
  have hmul : (n * 2 ^ 53).log2 = n.log2 + 53 := log2_mul_two_pow hpos 53
  obtain ⟨hlower, hupper⟩ := rounded_bounds (m := n * 2 ^ 53) (by omega) .exact
  obtain ⟨m, e, hparts, hm, he, he', hkey⟩ :=
    exists_full_eq_carried hlower hupper ((n.log2 : Int) - 52)
  exact ⟨m, e, (unpack_toFloat hpos hlt).trans hparts, hm, by omega, by omega, hkey⟩

/-- The double of a positive natural number is at least one. -/
theorem one_le_toFloat (hpos : 0 < n) (hlt : n < 2 ^ 64) : 1.0 ≤ n.toFloat := by
  obtain ⟨m, e, hparts, hm, -, -, hkey⟩ := exists_full_toFloat hpos hlt
  have hone : rounded (1 * 2 ^ 53) .exact = 2 ^ 52 := full_two_pow.rounded_eq 1
  have hle := key_rounded_le Nat.one_pos hpos
  rw [hone, ← hkey] at hle
  apply le_of_unpack
  rw [unpack_one, hparts]
  exact full_two_pow.le_ofParts hm hle

theorem unpack_div (x y : Float) :
    (x / y).toModel.unpack = (Float.Model.pack (UnpackedFloat.div Format.binary64
      x.toModel.unpack y.toModel.unpack)).unpack :=
  rfl

/-- The quotient of two positive natural numbers has a full mantissa, and it lies on the same side
of one as they lie in their order. -/
theorem exists_full_div_toFloat (hpos : 0 < n) (hlt : n < 2 ^ 64) (hpos' : 0 < n')
    (hlt' : n' < 2 ^ 64) :
    ∃ m e, (n.toFloat / n'.toFloat).toModel.unpack = ofParts m e ∧ Full m ∧
      (n ≤ n' → key m e ≤ key (2 ^ 52) (-52)) ∧ (n' ≤ n → key (2 ^ 52) (-52) ≤ key m e) := by
  obtain ⟨m, e, hparts, hm, he, he', hkey⟩ := exists_full_toFloat hpos hlt
  obtain ⟨m', e', hparts', hm', hf, hf', hkey'⟩ := exists_full_toFloat hpos' hlt'
  have hnear : -1000 ≤ e - e' := by omega
  obtain ⟨r, t, hdiv, hrlower, hrupper, ht, ht', hbelow, habove⟩ :=
    hm.exists_div_eq_carried hm' hnear (by omega)
  obtain ⟨q, u, hcarried, hq, -, -, hqkey⟩ := exists_full_eq_carried hrlower hrupper t
  rw [hkey, hkey', ← hqkey] at hbelow habove
  refine ⟨q, u, ?_, hq, fun hle => hbelow (key_rounded_le hpos hle),
    fun hle => habove (key_rounded_le hpos' hle)⟩
  rw [unpack_div, hparts, hparts', hdiv, unpack_pack_carried hrlower hrupper ht ht', hcarried]

/-- The quotient of a natural number by one that is not less lies between zero and one. -/
theorem toFloat_div_toFloat_mem (hle : n ≤ n') (hpos : 0 < n') (hlt : n' < 2 ^ 64) :
    0.0 ≤ n.toFloat / n'.toFloat ∧ n.toFloat / n'.toFloat ≤ 1.0 := by
  rcases Nat.eq_zero_or_pos n with rfl | hn
  · obtain ⟨m', e', hparts', hm', -⟩ := exists_full_toFloat hpos hlt
    have hquotient : UnpackedFloat.div Format.binary64 (.zero .positive) (ofParts m' e')
        = .zero .positive := by
      rw [ofParts_of_pos hm'.pos]
      rfl
    have hdiv := unpack_div (0 : Nat).toFloat n'.toFloat
    rw [hparts', unpack_toFloat_zero, hquotient, unpack_pack_zero] at hdiv
    refine ⟨le_of_unpack ?_, le_of_unpack ?_⟩
    · rw [unpack_zero, hdiv]
      rfl
    · rw [hdiv, unpack_one]
      exact zero_le_ofParts full_two_pow.pos _
  · obtain ⟨m, e, hdiv, hm, hbelow, -⟩ :=
      exists_full_div_toFloat hn (Nat.lt_of_le_of_lt hle hlt) hpos hlt
    refine ⟨le_of_unpack ?_, le_of_unpack ?_⟩
    · rw [unpack_zero, hdiv]
      exact zero_le_ofParts hm.pos _
    · rw [unpack_one, hdiv]
      exact hm.le_ofParts full_two_pow (hbelow hle)

/-- The quotient of a natural number by one that is not greater is at least one. -/
theorem one_le_toFloat_div_toFloat (hle : n' ≤ n) (hpos : 0 < n') (hlt : n < 2 ^ 64) :
    1.0 ≤ n.toFloat / n'.toFloat := by
  obtain ⟨m, e, hdiv, hm, -, habove⟩ :=
    exists_full_div_toFloat (Nat.lt_of_lt_of_le hpos hle) hlt hpos (Nat.lt_of_le_of_lt hle hlt)
  apply le_of_unpack
  rw [unpack_one, hdiv]
  exact full_two_pow.le_ofParts hm (habove hle)

end Double

end StripePruning
