import Mathlib.Data.Rat.Floor
import Mathlib.Tactic.Linarith

namespace Binary64

def pow2 : ℤ → ℚ
  | .ofNat n => ((2 ^ n : ℕ) : ℚ)
  | .negSucc n => mkRat 1 (2 ^ (n + 1))

/-- The nearest whole number, a tie to the even one. -/
def roundEven (q : ℚ) : ℤ :=
  let whole := ⌊q⌋
  let rest := q - whole
  if rest < 1 / 2 then whole
  else if 1 / 2 < rest then whole + 1
  else if whole % 2 = 0 then whole else whole + 1

/-- The greatest power of two that is not above the magnitude. -/
def exponent (q : ℚ) : ℤ :=
  let e : ℤ := Nat.log2 q.num.natAbs - Nat.log2 q.den
  if |q| < pow2 e then e - 1 else e

/-- The distance of the doubles around a magnitude, gradual underflow included. -/
def ulp (q : ℚ) : ℚ := pow2 (max (exponent q - 52) (-1074))

/-- The nearest double; no value is an infinite one. -/
def nearest (q : ℚ) : Option ℚ :=
  let r := if q = 0 then 0 else roundEven (q / ulp q) * ulp q
  if |r| < pow2 1024 then some r else none

/-- `x // y` of a double that is not negative and one that is positive, with an exact remainder. -/
def floorDiv (x y : ℚ) : Option ℤ := do
  let remainder := x - y * ⌊x / y⌋
  let difference ← nearest (x - remainder)
  let quotient ← nearest (difference / y)
  let whole := ⌊quotient⌋
  return if 1 / 2 < quotient - whole then whole + 1 else whole

/-- A whole number times a double. -/
def mulInt (n : ℤ) (x : ℚ) : Option ℚ := do
  let factor ← nearest n
  nearest (factor * x)

/-- The part before the point, with the sign of the number. -/
def truncate (q : ℚ) : ℤ := if q < 0 then -⌊-q⌋ else ⌊q⌋

/-! Rounding keeps the order, and whole numbers. -/

theorem roundEven_int (n : ℤ) : roundEven n = n := by
  simp [roundEven]

theorem floor_le_roundEven (q : ℚ) : ⌊q⌋ ≤ roundEven q := by
  unfold roundEven
  dsimp only
  split_ifs <;> omega

theorem roundEven_le_floor_add_one (q : ℚ) : roundEven q ≤ ⌊q⌋ + 1 := by
  unfold roundEven
  dsimp only
  split_ifs <;> omega

theorem roundEven_mono {p q : ℚ} (h : p ≤ q) : roundEven p ≤ roundEven q := by
  rcases (Int.floor_le_floor h).lt_or_eq with hless | hsame
  · have hp := roundEven_le_floor_add_one p
    have hq := floor_le_roundEven q
    omega
  · have hrest : p - ⌊p⌋ ≤ q - ⌊q⌋ := by
      rw [hsame]
      exact sub_le_sub_right h _
    unfold roundEven
    dsimp only
    rw [← hsame] at hrest ⊢
    split_ifs <;> first | omega | linarith

theorem le_roundEven {n : ℤ} {q : ℚ} (h : (n : ℚ) ≤ q) : n ≤ roundEven q := by
  simpa [roundEven_int] using roundEven_mono h

theorem roundEven_le {n : ℤ} {q : ℚ} (h : q ≤ n) : roundEven q ≤ n := by
  simpa [roundEven_int] using roundEven_mono h

example : floorDiv (3 / 10) (1 / 2) = some 0 := by decide +kernel

end Binary64
