import RecordSchema.Double.Shortest
import RecordSchema.Proofs.Double.Rounding

/-! The decimal that is written of a finite double is read as the same double
(`ofDecimal_shortest`), whether it was found on a grid or is the double in full. -/

namespace RecordSchema.Double

variable {m : Nat}

theorem ofDecimal_zero (exponent : Int) : ofDecimal 0 exponent = 0 := if_pos rfl

/-- A whole number in tenths. -/
theorem ofDecimal_tenths {e : Nat} (he : e ≤ 400) (digits : Nat) :
    ofDecimal (digits * 10 ^ e * 10) (-1) = ofDecimal digits e := by
  by_cases hd : digits = 0
  · rw [hd, Nat.zero_mul, Nat.zero_mul, ofDecimal_zero, ofDecimal_zero]
  have hpow : 10 ^ e ≠ 0 := Nat.pos_iff_ne_zero.mp (Nat.pow_pos (by decide))
  have htenths : digits * 10 ^ e * 10 ≠ 0 := Nat.mul_ne_zero (Nat.mul_ne_zero hd hpow) (by decide)
  rw [ofDecimal.eq_def, if_neg htenths, if_neg (by omega), if_neg (by omega), ofDecimal.eq_def,
    if_neg hd, if_neg (by omega), if_neg (by omega)]
  exact nearest_mul (by decide) (digits * 10 ^ e) 1

/-- The decimal is a magnitude, both in steps of the least double. -/
def IsExact (m digits : Nat) (exponent : Int) : Prop :=
  digits * 10 ^ exponent.toNat * 2 ^ leastPower = units m * 10 ^ (-exponent).toNat

theorem two_pow_le_ten_pow (n : Nat) : 2 ^ (3 * n) ≤ 10 ^ n := by
  rw [Nat.pow_mul]
  exact Nat.pow_le_pow_left (by decide) n

namespace IsExact
variable {digits : Nat} {exponent : Int}

theorem units_ne_zero (h : IsExact m digits exponent) (hd : digits ≠ 0) : units m ≠ 0 := by
  intro hzero
  rw [IsExact, hzero, Nat.zero_mul] at h
  have hpow : 0 < digits * 10 ^ exponent.toNat * 2 ^ leastPower :=
    Nat.mul_pos (Nat.mul_pos (Nat.pos_of_ne_zero hd) (Nat.pow_pos (by decide)))
      (Nat.two_pow_pos leastPower)
  exact Nat.ne_of_gt hpow h

/-- No such decimal is too large for a double at a glance. -/
theorem exponent_le (h : IsExact m digits exponent) (hd : digits ≠ 0) (hm : m < infinity) :
    exponent ≤ 400 := by
  apply Int.not_lt.mp
  intro hlarge
  have hnegative : (-exponent).toNat = 0 := by omega
  rw [IsExact, hnegative, Nat.pow_zero, Nat.mul_one] at h
  have hunits : 2 ^ (1024 + leastPower) ≤ units m :=
    calc 2 ^ (1024 + leastPower)
        ≤ 2 ^ (3 * exponent.toNat + leastPower) := Nat.pow_le_pow_right (by decide) (by omega)
      _ = 2 ^ (3 * exponent.toNat) * 2 ^ leastPower := Nat.pow_add ..
      _ ≤ 10 ^ exponent.toNat * 2 ^ leastPower := Nat.mul_le_mul_right _ (two_pow_le_ten_pow _)
      _ ≤ digits * 10 ^ exponent.toNat * 2 ^ leastPower :=
          Nat.mul_le_mul_right _ (Nat.le_mul_of_pos_left _ (Nat.pos_of_ne_zero hd))
      _ = units m := h
  exact Nat.not_lt.mpr hunits (units_lt hm)

/-- No such decimal is too small for a double at a glance. -/
theorem le_exponent (h : IsExact m digits exponent) (hd : digits ≠ 0) :
    0 ≤ exponent + digits.log2 + 400 := by
  apply Int.not_lt.mp
  intro hsmall
  have hunits := Nat.pos_of_ne_zero (h.units_ne_zero hd)
  have hpositive : exponent.toNat = 0 := by omega
  rw [IsExact, hpositive, Nat.pow_zero, Nat.mul_one] at h
  have hpower : digits.log2 + 1 + leastPower ≤ 3 * (-exponent).toNat := by
    rw [leastPower_eq]
    omega
  have hlt : digits * 2 ^ leastPower < units m * 10 ^ (-exponent).toNat :=
    calc digits * 2 ^ leastPower
        < 2 ^ (digits.log2 + 1) * 2 ^ leastPower :=
          (Nat.mul_lt_mul_right (Nat.two_pow_pos leastPower)).mpr Nat.lt_log2_self
      _ = 2 ^ (digits.log2 + 1 + leastPower) := (Nat.pow_add ..).symm
      _ ≤ 2 ^ (3 * (-exponent).toNat) := Nat.pow_le_pow_right (by decide) hpower
      _ ≤ 10 ^ (-exponent).toNat := two_pow_le_ten_pow _
      _ ≤ units m * 10 ^ (-exponent).toNat := Nat.le_mul_of_pos_left _ hunits
  exact Nat.ne_of_lt hlt h

theorem ofDecimal_eq (h : IsExact m digits exponent) (hm : m < infinity) :
    ofDecimal digits exponent = m := by
  by_cases hd : digits = 0
  · rw [IsExact, hd, Nat.zero_mul, Nat.zero_mul] at h
    have hpow : 10 ^ (-exponent).toNat ≠ 0 := Nat.pos_iff_ne_zero.mp (Nat.pow_pos (by decide))
    rw [hd, eq_zero_of_units ((Nat.mul_eq_zero.mp h.symm).resolve_right hpow), ofDecimal_zero]
  have hupper := h.exponent_le hd hm
  have hlower := h.le_exponent hd
  rw [IsExact] at h
  rw [ofDecimal.eq_def, if_neg hd, if_neg (Int.not_lt.mpr hupper), if_neg (Int.not_lt.mpr hlower)]
  cases exponent with
  | ofNat e =>
      have hback : (-Int.ofNat e).toNat = 0 := by simp
      rw [hback] at h
      exact nearest_exact Nat.one_pos h hm
  | negSucc e =>
      have hpow : 0 < 10 ^ (e + 1) := Nat.pow_pos (by decide)
      refine nearest_exact hpow ?_ hm
      calc digits * 2 ^ leastPower
          = digits * 10 ^ 0 * 2 ^ leastPower := by rw [Nat.pow_zero, Nat.mul_one]
        _ = units m * 10 ^ (e + 1) := h

/-- A zero less at the end of the digits, and one more in the exponent. -/
theorem tens (h : IsExact m (digits * 10) exponent) : IsExact m digits (exponent + 1) := by
  rw [IsExact] at h ⊢
  rcases Int.lt_or_le exponent 0 with hexponent | hexponent
  · have hcurrent : exponent.toNat = 0 := by omega
    have hnext : (exponent + 1).toNat = 0 := by omega
    have hback : (-exponent).toNat = (-(exponent + 1)).toNat + 1 := by omega
    apply Nat.eq_of_mul_eq_mul_right (show 0 < 10 by decide)
    calc digits * 10 ^ (exponent + 1).toNat * 2 ^ leastPower * 10
        = digits * 10 * 10 ^ exponent.toNat * 2 ^ leastPower := by
          rw [hnext, hcurrent, Nat.pow_zero, Nat.mul_one, Nat.mul_one, Nat.mul_right_comm]
      _ = units m * 10 ^ (-(exponent + 1)).toNat * 10 := by
          rw [h, hback, Nat.pow_succ, Nat.mul_assoc]
  · have hnext : (exponent + 1).toNat = exponent.toNat + 1 := by omega
    have hback : (-(exponent + 1)).toNat = (-exponent).toNat := by omega
    rw [hnext, hback, Nat.pow_succ', ← Nat.mul_assoc]
    exact h

theorem trimmed (h : IsExact m digits exponent) :
    IsExact m (Decimal.trimmed digits exponent).digits (Decimal.trimmed digits exponent).exponent := by
  fun_induction Decimal.trimmed digits exponent with
  | case1 digits exponent hzero ih =>
      obtain ⟨front, rfl⟩ : ∃ front, digits = front * 10 := ⟨digits / 10, by omega⟩
      rw [Nat.mul_div_left front (by decide)] at ih ⊢
      exact ih h.tens
  | case2 digits exponent => exact h

end IsExact

theorem isExact_mul_pow (m : Nat) : IsExact m (units m * 5 ^ leastPower) (-leastPower) := by
  have hforward : (-(leastPower : Int)).toNat = 0 := by omega
  have hback : (-(-(leastPower : Int))).toNat = leastPower := by omega
  rw [IsExact, hforward, hback, Nat.pow_zero, Nat.mul_one, Nat.mul_assoc, ← Nat.mul_pow]

theorem isExact_exactDecimal (m : Nat) :
    IsExact m (exactDecimal m).digits (exactDecimal m).exponent := by
  have hexponent : (-1074 : Int) = -leastPower := by
    rw [leastPower_eq]
    rfl
  rw [exactDecimal, hexponent, ← leastPower_eq]
  exact (isExact_mul_pow m).trimmed

theorem ofDecimal_onGrid {tie : Tie} {exponent : Int} {d : Decimal}
    (h : onGrid? tie m exponent = some d) : ofDecimal d.digits d.exponent = m := by
  obtain ⟨digits, hfind, rfl⟩ := Option.map_eq_some_iff.mp h
  have hfound := List.find?_some hfind
  exact beq_iff_eq.mp hfound

/-- The decimal that is written of a finite double reads back as the double. -/
theorem ofDecimal_shortest (tie : Tie) (hm : m < infinity) :
    ofDecimal (shortest tie m).digits (shortest tie m).exponent = m := by
  by_cases hzero : m = 0
  · rw [shortest, if_pos hzero, ofDecimal_zero, hzero]
  rw [shortest, if_neg hzero]
  cases hgrid : (List.range gridCount).findSome? fun (i : Nat) =>
      onGrid? tie m (coarsest m - i) with
  | none =>
      rw [Option.getD_none]
      exact (isExact_exactDecimal m).ofDecimal_eq hm
  | some d =>
      obtain ⟨i, _, honGrid⟩ := List.exists_of_findSome?_eq_some hgrid
      exact ofDecimal_onGrid honGrid

/-- Nothing but zero is written by the digit zero alone. -/
theorem shortest_of_digits_eq_zero {tie : Tie} (hm : m < infinity)
    (h : (shortest tie m).digits = 0) : shortest tie m = ⟨0, 0⟩ := by
  have hzero := ofDecimal_shortest tie hm
  rw [h, ofDecimal_zero] at hzero
  exact hzero ▸ rfl

end RecordSchema.Double
