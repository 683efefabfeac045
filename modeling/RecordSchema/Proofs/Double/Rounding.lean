import Mathlib.Algebra.Group.Nat.Defs
import RecordSchema.Double

/-! Rounding to doubles. Integers of 64 bits round to finite doubles (`isFinite_ofInt`), and a
quotient that is a finite double is not rounded (`nearest_exact`). -/

namespace RecordSchema.Double

/-! ## Integers -/

theorem roundHalfEven_le (numerator denominator : Nat) :
    roundHalfEven numerator denominator ≤ numerator / denominator + 1 := by
  unfold roundHalfEven
  dsimp only
  split <;> omega

/-- Of a positive number at most 53 bits are kept, so it ends at most 52 places below its first. -/
theorem div_shift_lt (scaled : Nat) :
    scaled / (1 <<< (scaled.log2 - 52)) < 0x20000000000000 := by
  rw [Nat.one_shiftLeft, Nat.div_lt_iff_lt_mul (Nat.two_pow_pos _)]
  have hpow : scaled < 2 ^ (53 + (scaled.log2 - 52)) := by
    calc
      scaled < 2 ^ (scaled.log2 + 1) := Nat.lt_log2_self
      _ ≤ 2 ^ (53 + (scaled.log2 - 52)) := Nat.pow_le_pow_right (by omega) (by omega)
  rwa [Nat.pow_add] at hpow

theorem log2_shiftLeft_lt {n bits : Nat} (h : n < 1 <<< bits) (hb : 0 < bits) (places : Nat) :
    (n <<< places).log2 < bits + places := by
  rw [Nat.shiftLeft_eq]
  rcases Nat.eq_zero_or_pos n with rfl | hn
  · rw [Nat.zero_mul, Nat.log2_zero]
    omega
  · rw [Nat.one_shiftLeft] at h
    have hp : n * 2 ^ places ≠ 0 := Nat.ne_of_gt (Nat.mul_pos hn (Nat.two_pow_pos places))
    rw [Nat.log2_lt hp, Nat.pow_add]
    exact Nat.mul_lt_mul_of_pos_right h (Nat.two_pow_pos places)

theorem nearest_one_lt_infinity {n : Nat} (h : n < 0x10000000000000000) :
    nearest n 1 < infinity := by
  have hbits : n < 1 <<< 64 := h
  have hlog := log2_shiftLeft_lt hbits (by decide) 1074
  have hround := roundHalfEven_le (n <<< 1074) (1 <<< ((n <<< 1074).log2 - 52))
  have hquotient := div_shift_lt (n <<< 1074)
  unfold nearest infinity
  simp only [Nat.div_one]
  generalize (n <<< 1074).log2 = log at *
  generalize roundHalfEven (n <<< 1074) (1 <<< (log - 52)) = rounded at *
  generalize n <<< 1074 / (1 <<< (log - 52)) = quotient at *
  omega

theorem isFinite_ofInt {n : Int} (h : n.natAbs < 0x10000000000000000) :
    (ofInt n).isFinite = true := by
  have hn := nearest_one_lt_infinity h
  have hm : nearest n.natAbs 1 < 0x8000000000000000 := Nat.lt_trans hn (by decide)
  simp [isFinite, ofInt, magnitude_ofMagnitude _ hm, hn]

/-! ## Quotients -/

variable {m : Nat}

theorem roundHalfEven_mul {factor : Nat} (hfactor : 0 < factor) (numerator denominator : Nat) :
    roundHalfEven (numerator * factor) (denominator * factor) =
      roundHalfEven numerator denominator := by
  have hrest : 2 * (numerator * factor % (denominator * factor)) =
      2 * (numerator % denominator) * factor := by
    rw [Nat.mul_mod_mul_right, Nat.mul_assoc]
  simp only [roundHalfEven, Nat.mul_div_mul_right _ _ hfactor, hrest,
    Nat.mul_lt_mul_right hfactor, Nat.mul_left_inj (Nat.ne_of_gt hfactor)]

theorem roundHalfEven_exact {denominator : Nat} (h : 0 < denominator) (quotient : Nat) :
    roundHalfEven (quotient * denominator) denominator = quotient := by
  have hrest : 2 * (quotient * denominator % denominator) < denominator := by
    rwa [Nat.mul_mod_left]
  rw [roundHalfEven, if_pos (.inl hrest), Nat.mul_div_left quotient h]

/-- Only the quotient counts. -/
theorem nearest_mul {factor : Nat} (hfactor : 0 < factor) (numerator denominator : Nat) :
    nearest (numerator * factor) (denominator * factor) = nearest numerator denominator := by
  have hscaled : (numerator * factor) <<< 1074 = numerator <<< 1074 * factor := by
    simp only [Nat.shiftLeft_eq, Nat.mul_right_comm]
  have hshift : ∀ shift, (denominator * factor) <<< shift = denominator <<< shift * factor := by
    intro shift
    simp only [Nat.shiftLeft_eq, Nat.mul_right_comm]
  simp only [nearest, hscaled, hshift, Nat.mul_div_mul_right _ _ hfactor,
    roundHalfEven_mul hfactor]

/-! ## Numbers that are doubles -/

/-- A magnitude is its 53 bits at least, shifted by its exponent. -/
theorem units_eq (m : Nat) : ∃ bits shift, units m = bits * 2 ^ shift ∧
    m = shift * 2 ^ 52 + bits ∧ bits < 2 ^ 53 ∧ (shift = 0 ∨ 2 ^ 52 ≤ bits) := by
  have hm := Nat.div_add_mod m (2 ^ 52)
  have hfraction := Nat.mod_lt m (Nat.two_pow_pos 52)
  by_cases hzero : m / 2 ^ 52 = 0
  · refine ⟨m % 2 ^ 52, 0, ?_, by omega, by omega, .inl rfl⟩
    rw [Nat.pow_zero, Nat.mul_one]
    exact if_pos hzero
  · refine ⟨2 ^ 52 + m % 2 ^ 52, m / 2 ^ 52 - 1, ?_, by omega, by omega, .inr (by omega)⟩
    rw [← Nat.shiftLeft_eq]
    exact if_neg hzero

theorem log2_units {bits shift : Nat} (hbits : bits < 2 ^ 53) (hlow : shift = 0 ∨ 2 ^ 52 ≤ bits) :
    (bits * 2 ^ shift).log2 - 52 = shift := by
  by_cases hzero : bits * 2 ^ shift = 0
  · rcases hlow with rfl | hlow
    · rw [hzero]
      rfl
    · have := Nat.mul_pos (Nat.lt_of_lt_of_le (Nat.two_pow_pos 52) hlow) (Nat.two_pow_pos shift)
      omega
  have hupper : (bits * 2 ^ shift).log2 < 53 + shift := by
    rw [Nat.log2_lt hzero, Nat.pow_add]
    exact (Nat.mul_lt_mul_right (Nat.two_pow_pos shift)).mpr hbits
  rcases hlow with rfl | hlow
  · omega
  · have hlower : 52 + shift ≤ (bits * 2 ^ shift).log2 := by
      rw [Nat.le_log2 hzero, Nat.pow_add]
      exact Nat.mul_le_mul_right _ hlow
    omega

/-- The least double is `2 ^ -leastPower`; irreducible, so that no step computes the power. -/
@[irreducible] def leastPower : Nat := 1074

theorem leastPower_eq : leastPower = 1074 := by rw [leastPower]

theorem shiftLeft_leastPower (n : Nat) : n <<< 1074 = n * 2 ^ leastPower := by
  rw [← leastPower_eq, Nat.shiftLeft_eq]

/-- A quotient that is a finite double is not rounded. -/
theorem nearest_exact {numerator denominator : Nat} (hpos : 0 < denominator)
    (h : numerator * 2 ^ leastPower = units m * denominator) (hm : m < infinity) :
    nearest numerator denominator = m := by
  obtain ⟨bits, shift, hunits, rfl, hbits, hlow⟩ := units_eq m
  have hpow : 0 < denominator * 2 ^ shift := Nat.mul_pos hpos (Nat.two_pow_pos shift)
  have hshift : (numerator <<< 1074 / denominator).log2 - 52 = shift := by
    rw [shiftLeft_leastPower, h, Nat.mul_div_left _ hpos, hunits, log2_units hbits hlow]
  have hround : roundHalfEven (numerator <<< 1074) (denominator <<< shift) = bits := by
    rw [shiftLeft_leastPower, Nat.shiftLeft_eq, h, hunits, Nat.mul_assoc, Nat.mul_comm (2 ^ shift),
      roundHalfEven_exact hpow]
  simp only [nearest, hshift, hround]
  exact Nat.min_eq_right (Nat.le_of_lt hm)

theorem eq_zero_of_units (h : units m = 0) : m = 0 := by
  obtain ⟨bits, shift, hunits, rfl, _, hlow⟩ := units_eq m
  have hbits : bits = 0 := by
    rw [h] at hunits
    exact (Nat.mul_eq_zero.mp hunits.symm).resolve_right (Nat.ne_of_gt (Nat.two_pow_pos shift))
  omega

theorem units_lt (hm : m < infinity) : units m < 2 ^ (1024 + leastPower) := by
  obtain ⟨bits, shift, hunits, rfl, hbits, hlow⟩ := units_eq m
  have hshift : 53 + shift ≤ 1024 + leastPower := by
    rw [infinity] at hm
    rw [leastPower_eq]
    omega
  calc units (shift * 2 ^ 52 + bits)
      = bits * 2 ^ shift := hunits
    _ < 2 ^ 53 * 2 ^ shift := (Nat.mul_lt_mul_right (Nat.two_pow_pos shift)).mpr hbits
    _ = 2 ^ (53 + shift) := (Nat.pow_add ..).symm
    _ ≤ 2 ^ (1024 + leastPower) := Nat.pow_le_pow_right (by decide) hshift

end RecordSchema.Double
