import Mathlib

/-!
# Rounding to doubles

Lean describes its doubles by mantissas and exponents.  A mantissa that is too long
is shifted to 53 bits, rounded to the nearest one, and packed into 64 bits.  This
module follows a positive number through these steps, as far as it is a normal one.

* Two more bits of a mantissa remember what a shift has dropped.
  `roundedMantissa_le` says that shifting and rounding keep the order.
* `Full` are the mantissas of 53 bits.  `roundWithAccuracy_eq` says what rounding
  makes of a longer one: `rounded` may be one bit too long, and then `carried` moves
  this bit to the exponent.
* `unpack_pack_carried` reads a number back from its bit pattern.
-/

namespace StripePruning

namespace Double

open Float.Model Float.Model.UnpackedFloat

/-! ## Mantissas with two more bits -/

/-- The place of an extended mantissa in their order, which compares the two more bits last. -/
def place (em : ExtendedMantissa) : Nat :=
  4 * em.mantissa + 2 * em.roundBit.toNat + em.stickyBit.toNat

/-- Dropping one bit keeps the order. -/
theorem place_shiftRightOne_le {a b : ExtendedMantissa} (h : place a ≤ place b) :
    place a.shiftRightOne ≤ place b.shiftRightOne := by
  obtain ⟨m, r, s⟩ := a
  obtain ⟨m', r', s'⟩ := b
  have hodd : ∀ n : Nat, (n % 2 != 0).toNat = n % 2 := by
    intro n
    rcases Nat.mod_two_eq_zero_or_one n with hn | hn <;> rw [hn] <;> rfl
  simp only [place, ExtendedMantissa.shiftRightOne, hodd] at h ⊢
  cases r <;> cases s <;> cases r' <;> cases s' <;>
    simp only [Bool.toNat_false, Bool.toNat_true, Bool.or_false, Bool.or_true] at h ⊢ <;> omega

theorem shiftRight_zero (em : ExtendedMantissa) : em >>> 0 = em := rfl

theorem shiftRight_succ (em : ExtendedMantissa) (count : Nat) :
    em >>> (count + 1) = (em >>> count).shiftRightOne := rfl

/-- Dropping bits keeps the order. -/
theorem place_shiftRight_le {a b : ExtendedMantissa} (h : place a ≤ place b) (count : Nat) :
    place (a >>> count) ≤ place (b >>> count) := by
  induction count with
  | zero => exact h
  | succ count ih => exact place_shiftRightOne_le ih

/-- Rounding keeps the order. -/
theorem roundedMantissa_le {a b : ExtendedMantissa} (h : place a ≤ place b) :
    a.roundedMantissa ≤ b.roundedMantissa := by
  obtain ⟨m, r, s⟩ := a
  obtain ⟨m', r', s'⟩ := b
  simp only [place] at h
  cases r <;> cases s <;> cases r' <;> cases s' <;>
    simp only [Bool.toNat_false, Bool.toNat_true] at h <;>
    simp only [ExtendedMantissa.roundedMantissa, ExtendedMantissa.accuracy,
      Accuracy.roundToNearestEven] <;> omega

/-- Rounding goes up by one at most. -/
theorem roundedMantissa_bounds (em : ExtendedMantissa) :
    em.mantissa ≤ em.roundedMantissa ∧ em.roundedMantissa ≤ em.mantissa + 1 := by
  obtain ⟨m, r, s⟩ := em
  cases r <;> cases s <;>
    simp only [ExtendedMantissa.roundedMantissa, ExtendedMantissa.accuracy,
      Accuracy.roundToNearestEven] <;> omega

theorem mantissa_shiftRight (em : ExtendedMantissa) (count : Nat) :
    (em >>> count).mantissa = em.mantissa / 2 ^ count := by
  induction count with
  | zero => rw [shiftRight_zero, Nat.pow_zero, Nat.div_one]
  | succ count ih =>
    rw [shiftRight_succ, Nat.pow_succ, ← Nat.div_div_eq_div_mul, ← ih]
    rfl

/-- Bits that are all zero are dropped without loss. -/
theorem shiftRight_exact (m count : Nat) :
    (ExtendedMantissa.mk (m * 2 ^ count) false false) >>> count = ⟨m, false, false⟩ := by
  induction count generalizing m with
  | zero => rw [shiftRight_zero, Nat.pow_zero, Nat.mul_one]
  | succ count ih =>
    rw [Nat.pow_succ, Nat.mul_comm (2 ^ count), ← Nat.mul_assoc, shiftRight_succ, ih]
    simp [ExtendedMantissa.shiftRightOne]

theorem mantissa_ofMantissaAndAccuracy (m : Nat) (accuracy : Accuracy) :
    (ExtendedMantissa.ofMantissaAndAccuracy m accuracy).mantissa = m := by
  rcases accuracy with _ | ordering
  · rfl
  · cases ordering <;> rfl

/-! ## Full mantissas -/

/-- A mantissa of 53 bits. -/
structure Full (m : Nat) : Prop where
  lower : 2 ^ 52 ≤ m
  upper : m < 2 ^ 53

theorem Full.pos {m : Nat} (h : Full m) : 0 < m :=
  Nat.lt_of_lt_of_le (Nat.two_pow_pos 52) h.lower

theorem full_iff {m : Nat} (hpos : 0 < m) : Full m ↔ m.log2 = 52 := by
  rw [Nat.log2_eq_iff (Nat.ne_of_gt hpos)]
  exact ⟨fun h => ⟨h.lower, h.upper⟩, fun h => ⟨h.1, h.2⟩⟩

theorem Full.log2_eq {m : Nat} (h : Full m) : m.log2 = 52 :=
  (full_iff h.pos).1 h

/-- The positive number `m * 2 ^ e`, or zero. -/
def ofParts (m : Nat) (e : Int) : UnpackedFloat :=
  if h : m = 0 then .zero .positive else .finite .positive m e (Nat.pos_of_ne_zero h)

theorem ofParts_of_pos {m : Nat} (h : 0 < m) (e : Int) :
    ofParts m e = .finite .positive m e h :=
  dif_neg (Nat.ne_of_gt h)

/-- The number `m * 2 ^ e`, with a full mantissa also if `m` is the first number that is too
long. -/
def carried (m : Nat) (e : Int) : UnpackedFloat :=
  if m = 2 ^ 53 then ofParts (2 ^ 52) (e + 1) else ofParts m e

theorem Full.carried_eq {m : Nat} (h : Full m) (e : Int) : carried m e = ofParts m e :=
  if_neg (Nat.ne_of_lt h.upper)

theorem full_of_le {m : Nat} (hlower : 2 ^ 52 ≤ m) (hupper : m ≤ 2 ^ 53) (hne : m ≠ 2 ^ 53) :
    Full m :=
  ⟨hlower, Nat.lt_of_le_of_ne hupper hne⟩

/-! ## Rounding -/

theorem log2_mul_two_pow {m : Nat} (hpos : 0 < m) (count : Nat) :
    (m * 2 ^ count).log2 = m.log2 + count := by
  have hne : m ≠ 0 := Nat.ne_of_gt hpos
  rw [Nat.log2_eq_iff (Nat.mul_ne_zero hne (Nat.ne_of_gt (Nat.two_pow_pos count))), Nat.pow_add,
    Nat.add_right_comm, Nat.pow_add]
  exact ⟨Nat.mul_le_mul_right _ (Nat.log2_self_le hne),
    Nat.mul_lt_mul_of_pos_right Nat.lt_log2_self (Nat.two_pow_pos count)⟩

/-- A mantissa of at least 53 bits is shifted until it is full. -/
theorem shiftToTargetExponent_eq {m : Nat} {e : Int} (hm : 52 ≤ m.log2)
    (he : -1074 ≤ e + (m.log2 - 52 : Nat)) (accuracy : Accuracy) :
    shiftToTargetExponent Format.binary64 m e accuracy
      = (ExtendedMantissa.ofMantissaAndAccuracy m accuracy >>> (m.log2 - 52),
          e + (m.log2 - 52 : Nat)) := by
  have htarget : Format.binary64.targetExponent (totalExponent m e) = e + (m.log2 - 52 : Nat) := by
    simp only [Format.targetExponent, totalExponent, Format.mantissaBits, Format.minExponent]
    omega
  have hshift : (e + (m.log2 - 52 : Nat) - e).toNat = m.log2 - 52 := by omega
  rw [shiftToTargetExponent, htarget, shiftToExponent, hshift]

/-- What a mantissa of at least 53 bits is rounded to. -/
def rounded (m : Nat) (accuracy : Accuracy) : Nat :=
  (ExtendedMantissa.ofMantissaAndAccuracy m accuracy >>> (m.log2 - 52)).roundedMantissa

/-- A rounded mantissa is full or the first number that is too long. -/
theorem rounded_bounds {m : Nat} (hm : 52 ≤ m.log2) (accuracy : Accuracy) :
    2 ^ 52 ≤ rounded m accuracy ∧ rounded m accuracy ≤ 2 ^ 53 := by
  have hne : m ≠ 0 := by
    rintro rfl
    rw [Nat.log2_zero] at hm
    omega
  have hlog : 2 ^ m.log2 = 2 ^ 52 * 2 ^ (m.log2 - 52) := by
    rw [← Nat.pow_add, Nat.add_sub_cancel' hm]
  have hlower : 2 ^ 52 ≤ m / 2 ^ (m.log2 - 52) := by
    rw [Nat.le_div_iff_mul_le (Nat.two_pow_pos _), ← hlog]
    exact Nat.log2_self_le hne
  have hupper : m / 2 ^ (m.log2 - 52) < 2 ^ 53 := by
    rw [Nat.div_lt_iff_lt_mul (Nat.two_pow_pos _)]
    have hlt : m < 2 ^ (m.log2 + 1) := Nat.lt_log2_self
    rw [Nat.pow_succ, hlog] at hlt
    omega
  obtain ⟨hdown, hup⟩ := roundedMantissa_bounds
    (ExtendedMantissa.ofMantissaAndAccuracy m accuracy >>> (m.log2 - 52))
  rw [mantissa_shiftRight, mantissa_ofMantissaAndAccuracy] at hdown hup
  rw [rounded]
  omega

/-- A full mantissa with zeros after it is rounded to itself. -/
theorem Full.rounded_eq {m : Nat} (h : Full m) (count : Nat) :
    rounded (m * 2 ^ count) .exact = m := by
  have hcount : (m * 2 ^ count).log2 - 52 = count := by
    rw [log2_mul_two_pow h.pos, h.log2_eq, Nat.add_sub_cancel_left]
  rw [rounded, hcount]
  show (ExtendedMantissa.mk (m * 2 ^ count) false false >>> count).roundedMantissa = m
  rw [shiftRight_exact]
  rfl

/-- A mantissa of at least 53 bits is rounded, and a bit that is too many goes to the exponent. -/
theorem roundWithAccuracy_eq {m : Nat} {e : Int} (hm : 52 ≤ m.log2)
    (he : -1074 ≤ e + (m.log2 - 52 : Nat)) (accuracy : Accuracy) :
    roundWithAccuracy Format.binary64 .positive m e accuracy
      = carried (rounded m accuracy) (e + (m.log2 - 52 : Nat)) := by
  obtain ⟨hlower, hupper⟩ := rounded_bounds hm accuracy
  have hne : rounded m accuracy ≠ 0 := by omega
  have hlog : 52 ≤ (rounded m accuracy).log2 := (Nat.le_log2 hne).2 hlower
  rw [roundWithAccuracy, shiftToTargetExponent_eq hm he accuracy]
  show (match shiftToTargetExponent Format.binary64 (rounded m accuracy)
      (e + (m.log2 - 52 : Nat)) .exact with
    | (em, exponent) => ofParts em.mantissa exponent) = _
  rw [shiftToTargetExponent_eq hlog (by omega)]
  show ofParts (ExtendedMantissa.mk (rounded m accuracy) false false
      >>> ((rounded m accuracy).log2 - 52)).mantissa _ = _
  rw [mantissa_shiftRight]
  -- Only a mantissa that was rounded up to 54 bits is shifted once more.
  by_cases hcarry : rounded m accuracy = 2 ^ 53
  · rw [carried, if_pos hcarry, hcarry, Nat.log2_two_pow]
    rfl
  · have hfull := full_of_le hlower hupper hcarry
    rw [hfull.carried_eq, hfull.log2_eq, Nat.sub_self, Nat.pow_zero, Nat.div_one]
    simp

/-- A full mantissa with zeros after it is kept. -/
theorem Full.roundWithAccuracy_exact {m : Nat} (h : Full m) {e : Int} {count : Nat}
    (he : -1074 ≤ e + count) :
    roundWithAccuracy Format.binary64 .positive (m * 2 ^ count) e .exact
      = ofParts m (e + count) := by
  have hlog : (m * 2 ^ count).log2 = 52 + count := by
    rw [log2_mul_two_pow h.pos, h.log2_eq]
  rw [roundWithAccuracy_eq (by omega) (by omega), h.rounded_eq, h.carried_eq, hlog,
    Nat.add_sub_cancel_left]

/-! ## Bit patterns -/

theorem unpackSign_packComponents (sign : Sign) (exponent : BitVec 11) (mantissa : BitVec 52) :
    unpackSign (packComponents Format.binary64 sign exponent mantissa) = sign.toBitVec := by
  ext i hi
  obtain rfl : i = 0 := by omega
  have hbit : (sign.toBitVec ++ exponent ++ mantissa).getLsbD 63 = sign.toBitVec[0] := by
    rw [BitVec.getLsbD_append, BitVec.getLsbD_append]
    rfl
  rw [unpackSign, packComponents, BitVec.getElem_cast, BitVec.getElem_extract]
  exact hbit

/-- The bits of a normal number: its exponent, counted from the least one, and its mantissa, of
which the first bit is left out. -/
theorem Full.pack_ofParts {m : Nat} (h : Full m) {biased : Nat} (hbiased : biased ≤ 2046) :
    UnpackedFloat.pack Format.binary64 (ofParts m ((biased : Int) - 1075))
      = packComponents Format.binary64 .positive (BitVec.ofNat 11 biased) (BitVec.ofNat 52 m) := by
  have hbits : ((biased : Int) - 1075 + Format.binary64.exponentBias + (52 : Nat)).toNat
      = biased := by
    simp only [Format.exponentBias]
    omega
  rw [ofParts_of_pos h.pos, UnpackedFloat.pack]
  simp only [hbits, h.log2_eq]
  rw [if_neg (by omega), if_pos (by rfl)]

/-- The first bit of a full mantissa can be put back. -/
theorem Full.toNat_append {m : Nat} (h : Full m) : (1#1 ++ BitVec.ofNat 52 m).toNat = m := by
  have hlower := h.lower
  have hupper := h.upper
  have hfraction : (BitVec.ofNat 52 m).toNat = m - 2 ^ 52 := by
    rw [BitVec.toNat_ofNat]
    omega
  have hlt : m - 2 ^ 52 < 2 ^ 52 := by omega
  rw [BitVec.toNat_append, hfraction, ← Nat.shiftLeft_add_eq_or_of_lt hlt,
    BitVec.toNat_one (by decide), Nat.shiftLeft_eq]
  omega

/-- A normal number is read back from its bits. -/
theorem Full.unpack_pack {m : Nat} (h : Full m) {e : Int} (he : -1074 ≤ e) (he' : e ≤ 971) :
    (Float.Model.pack (ofParts m e)).unpack = ofParts m e := by
  obtain ⟨biased, rfl⟩ : ∃ biased : Nat, e = (biased : Int) - 1075 :=
    ⟨(e + 1075).toNat, by omega⟩
  have hexponent : (BitVec.ofNat 11 biased).toNat = biased := by
    rw [BitVec.toNat_ofNat, Nat.mod_eq_of_lt (by omega)]
  have hones : BitVec.ofNat 11 biased ≠ -1#11 := by
    intro heq
    have hbits : (-1#11).toNat = 2047 := by decide
    rw [← heq, hexponent] at hbits
    omega
  have hzero : BitVec.ofNat 11 biased ≠ 0#11 := by
    intro heq
    have hbits : (0#11).toNat = 0 := rfl
    rw [← heq, hexponent] at hbits
    omega
  show UnpackedFloat.unpack Format.binary64 (UnpackedFloat.pack Format.binary64 (ofParts m _)) = _
  rw [h.pack_ofParts (by omega), UnpackedFloat.unpack]
  simp only [unpackMantissa_packComponents, unpackExponent_packComponents,
    unpackSign_packComponents]
  rw [if_neg hones, if_neg hzero, ofParts_of_pos h.pos, UnpackedFloat.finite.injEq, hexponent]
  refine ⟨rfl, h.toNat_append, ?_⟩
  simp only [Format.exponentBias]
  omega

theorem unpack_pack_carried {m : Nat} (hlower : 2 ^ 52 ≤ m) (hupper : m ≤ 2 ^ 53) {e : Int}
    (he : -1074 ≤ e) (he' : e ≤ 970) :
    (Float.Model.pack (carried m e)).unpack = carried m e := by
  by_cases hcarry : m = 2 ^ 53
  · have hfull : Full (2 ^ 52) := ⟨by decide, by decide⟩
    rw [carried, if_pos hcarry, hfull.unpack_pack (by omega) (by omega)]
  · have hfull := full_of_le hlower hupper hcarry
    rw [hfull.carried_eq, hfull.unpack_pack he (by omega)]

theorem unpack_pack_zero :
    (Float.Model.pack (.zero .positive)).unpack = .zero .positive := rfl

end Double

end StripePruning
