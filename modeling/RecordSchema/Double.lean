/-! Binary floating-point numbers of 64 bits, as their bits: a sign, and a magnitude whose order is
the order of the values. The bits tell every two values apart, both zeros and all NaNs included. A
rational number is rounded to the nearest of them, ties going to the even neighbour; too large
numbers become infinite. -/

namespace RecordSchema

structure Double where
  bits : UInt64
  deriving DecidableEq, Repr

namespace Double

/-- The sign is the highest bit. -/
def isNegative (x : Double) : Bool := 0x8000000000000000 ≤ x.bits.toNat

/-- Everything but the sign. -/
def magnitude (x : Double) : Nat := x.bits.toNat % 0x8000000000000000

/-- All bits of the exponent and none of the fraction. -/
def infinity : Nat := 0x7ff0000000000000

def ofMagnitude (negative : Bool) (magnitude : Nat) : Double :=
  ⟨UInt64.ofNat (magnitude + if negative then 0x8000000000000000 else 0)⟩

def isNaN (x : Double) : Bool := infinity < x.magnitude

def isInfinite (x : Double) : Bool := x.magnitude = infinity

def isFinite (x : Double) : Bool := x.magnitude < infinity

def isZero (x : Double) : Bool := x.magnitude = 0

/-- A finite magnitude in steps of the least positive double, which is `2 ^ -1074`. -/
def units (magnitude : Nat) : Nat :=
  let exponent := magnitude / 0x10000000000000
  let fraction := magnitude % 0x10000000000000
  if exponent = 0 then fraction else (0x10000000000000 + fraction) <<< (exponent - 1)

/-- Equality of the numbers: a NaN equals nothing, and the two zeros are equal. -/
def equals (x y : Double) : Bool :=
  !x.isNaN && !y.isNaN && (x.bits == y.bits || x.isZero && y.isZero)

@[simp] theorem magnitude_ofMagnitude (negative : Bool) {magnitude : Nat}
    (h : magnitude < 0x8000000000000000) : (ofMagnitude negative magnitude).magnitude = magnitude := by
  cases negative <;> simp [ofMagnitude, Double.magnitude] <;> omega

theorem isNegative_iff {x : Double} : x.isNegative = true ↔ 0x8000000000000000 ≤ x.bits.toNat := by
  simp [isNegative]

theorem ofMagnitude_magnitude (x : Double) : ofMagnitude x.isNegative x.magnitude = x := by
  have hx : x.bits.toNat < 0x10000000000000000 := x.bits.toNat_lt
  have hb : (ofMagnitude x.isNegative x.magnitude).bits.toNat = x.bits.toNat := by
    unfold ofMagnitude magnitude
    rw [UInt64.toNat_ofNat']
    split
    · rename_i hn
      have := isNegative_iff.mp hn
      omega
    · rename_i hn
      have : ¬0x8000000000000000 ≤ x.bits.toNat := mt isNegative_iff.mpr hn
      omega
  cases x
  exact congrArg mk (UInt64.toNat_inj.mp hb)

/-! ## Rounding -/

def roundHalfEven (numerator denominator : Nat) : Nat :=
  let quotient := numerator / denominator
  let rest := 2 * (numerator % denominator)
  if rest < denominator ∨ rest = denominator ∧ quotient % 2 = 0 then quotient else quotient + 1

/-- The magnitude nearest to a quotient. In steps of `2 ^ -1074` the number has some bits before
its point; of these 53 are kept, and `shift` of them rounded away. -/
def nearest (numerator denominator : Nat) : Nat :=
  let scaled := numerator <<< 1074
  let shift := (scaled / denominator).log2 - 52
  min infinity (shift * 0x10000000000000 + roundHalfEven scaled (denominator <<< shift))

/-- The magnitude nearest to `digits * 10 ^ exponent`. Exponents far outside the range of doubles
are settled first, so that no huge power is computed. -/
def ofDecimal (digits : Nat) (exponent : Int) : Nat :=
  if digits = 0 then 0
  else if 400 < exponent then infinity
  else if exponent + digits.log2 + 400 < 0 then 0
  else match exponent with
    | .ofNat e => nearest (digits * Nat.pow 10 e) 1
    | .negSucc e => nearest digits (Nat.pow 10 (e + 1))

def ofInt (n : Int) : Double := ofMagnitude (n < 0) (nearest n.natAbs 1)

end Double

end RecordSchema
