import RecordSchema.Double

/-! Unsigned decimal numbers with their two notations, and the shortest one that reads back as a
given double. Grids of decimals are tried from a coarse one to finer ones, each ten times as fine as
the one before; on each, the two decimals around the value. Of two that read back the nearer one is
taken. -/

namespace RecordSchema

/-- The number `digits * 10 ^ exponent`. -/
structure Decimal where
  digits : Nat
  exponent : Int
  deriving DecidableEq, Repr

namespace Decimal

/-- Decimal digits from the first to the last. -/
def digitText (n : Nat) : String := String.ofList (Nat.toDigits 10 n)

def zeros (n : Nat) : String := String.ofList (List.replicate n '0')

/-- The same number without zeros at the end of its digits. -/
def trimmed (digits : Nat) (exponent : Int) : Decimal :=
  if h : digits ≠ 0 ∧ digits % 10 = 0 then trimmed (digits / 10) (exponent + 1)
  else ⟨digits, exponent⟩
termination_by digits
decreasing_by omega

/-- How many digits stand before the point; not positive when the number is below one tenth. -/
def point (d : Decimal) : Int := (digitText d.digits).length + d.exponent

/-- The digits before and after the point; the second text is empty for whole numbers. -/
def positional (d : Decimal) : String × String :=
  let text := digitText d.digits
  if d.point ≤ 0 then ("0", zeros (-d.point).toNat ++ text)
  else if 0 ≤ d.exponent then (text ++ zeros d.exponent.toNat, "")
  else ((text.take d.point.toNat).copy, (text.drop d.point.toNat).copy)

/-- One digit before the point, then the power of ten with its sign. -/
def scientific (d : Decimal) : String :=
  let text := digitText d.digits
  let fraction := (text.drop 1).copy
  let power := d.point - 1
  (text.take 1).copy ++ (if fraction.isEmpty then "" else "." ++ fraction) ++ "e" ++
    (if power < 0 then "-" else "+") ++ digitText power.natAbs

end Decimal

namespace Double

/-- Which of two equally near decimals of the same length is written. -/
inductive Tie where
  | toEven | up
  deriving DecidableEq, Repr

/-- Whether the multiple of the grid below a quotient is taken before the one above it. -/
def isLowerNearer (tie : Tie) (lower rest denominator : Nat) : Bool :=
  2 * rest < denominator || 2 * rest == denominator && tie == .toEven && lower % 2 == 0

/-- A multiple of `10 ^ exponent` next to a finite magnitude that reads back as it. -/
def onGrid? (tie : Tie) (magnitude : Nat) (exponent : Int) : Option Decimal :=
  let (numerator, denominator) := match exponent with
    | .ofNat e => (units magnitude, Nat.pow 10 e <<< 1074)
    | .negSucc e => (units magnitude * Nat.pow 10 (e + 1), 1 <<< 1074)
  let lower := numerator / denominator
  let candidates :=
    if isLowerNearer tie lower (numerator % denominator) denominator then [lower, lower + 1]
    else [lower + 1, lower]
  (candidates.find? (ofDecimal · exponent == magnitude)).map (⟨·, exponent⟩)

/-- A power of ten above the magnitude; 30103 / 100000 is just above the decimal logarithm of two. -/
def coarsest (magnitude : Nat) : Int :=
  (((units magnitude).log2 : Int) - 1073) * 30103 / 100000 + 1

/-- No double has more than 17 digits, and the coarsest grid is at most two too coarse. -/
def gridCount : Nat := 20

/-- A finite magnitude written out in full. -/
def exactDecimal (magnitude : Nat) : Decimal := .trimmed (units magnitude * Nat.pow 5 1074) (-1074)

def shortest (tie : Tie) (magnitude : Nat) : Decimal :=
  if magnitude = 0 then ⟨0, 0⟩
  else ((List.range gridCount).findSome? fun (i : Nat) =>
    onGrid? tie magnitude (coarsest magnitude - i)).getD (exactDecimal magnitude)

end Double

end RecordSchema
