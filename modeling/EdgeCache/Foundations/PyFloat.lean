import Mathlib.Data.Rat.Lemmas
import Mathlib.Algebra.Order.Ring.Rat
import Mathlib.Tactic.Linarith

/-!
# Python floats

The values of a Python `float`: NaN, the two infinities and the finite values, with the comparisons
and the built-ins `max` and `min` of Python, which depend on the order of their arguments as soon as
one of them is NaN. The arithmetic of the finite values is exact (rounding, overflow to an infinity
and the sign of zero are not modelled). `ofInt` says which integers can be added to a `float`, and
`timeSleep` which values `time.sleep` accepts.
-/

/-- The exceptions of Python that matter here. -/
inductive PyError
  | typeError
  | valueError
  | overflowError
  | unicodeEncodeError
  deriving DecidableEq, Repr

/-- A Python `float`. -/
inductive PyFloat
  | nan
  | negInf
  | fin (q : ℚ)
  | posInf
  deriving DecidableEq, Repr

namespace PyFloat

/-- `x < y`: false as soon as one side is NaN. -/
def lt : PyFloat → PyFloat → Bool
  | nan, _ => false
  | _, nan => false
  | negInf, negInf => false
  | negInf, _ => true
  | _, negInf => false
  | posInf, _ => false
  | fin _, posInf => true
  | fin p, fin q => decide (p < q)

/-- `x <= y`: false as soon as one side is NaN. -/
def le : PyFloat → PyFloat → Bool
  | nan, _ => false
  | _, nan => false
  | negInf, _ => true
  | _, negInf => false
  | _, posInf => true
  | posInf, fin _ => false
  | fin p, fin q => decide (p ≤ q)

/-- The least integer that is too large for a `float`: it is half a gap beyond the largest one. -/
@[irreducible] def intLimit : ℕ := 2 ^ 1024 - 2 ^ 970

/-- The integer can be converted to a `float`. -/
def Fits (n : ℤ) : Prop := n.natAbs < intLimit

instance : DecidablePred Fits := fun n => inferInstanceAs (Decidable (n.natAbs < intLimit))

/-- The conversion of an integer that is an operand next to a `float`. -/
def ofInt (n : ℤ) : Except PyError ℚ := if Fits n then .ok n else .error .overflowError

theorem ofInt_of_fits {n : ℤ} (h : Fits n) : ofInt n = .ok n := if_pos h

theorem ofInt_of_not_fits {n : ℤ} (h : ¬ Fits n) : ofInt n = .error .overflowError := if_neg h

theorem fits_zero : Fits 0 := by decide +kernel

/-- `math.isfinite`. -/
def isFinite : PyFloat → Bool
  | fin _ => true
  | _ => false

/-- `max(x, y)`: the first argument unless the second one is greater. -/
protected def max (x y : PyFloat) : PyFloat := if lt x y then y else x

/-- `min(x, y)`: the first argument unless the second one is smaller. -/
protected def min (x y : PyFloat) : PyFloat := if lt y x then y else x

@[simp] theorem lt_fin (p q : ℚ) : lt (fin p) (fin q) = decide (p < q) := rfl

@[simp] theorem le_fin (p q : ℚ) : le (fin p) (fin q) = decide (p ≤ q) := rfl

/-- `max(0.0, x)` is a number that is not negative, whatever `x` is. -/
theorem zero_le_max (x : PyFloat) : le (fin 0) (PyFloat.max (fin 0) x) = true := by
  cases x with
  | nan => decide +kernel
  | negInf => decide +kernel
  | posInf => decide +kernel
  | fin q =>
    by_cases h : 0 < q
    · simp [PyFloat.max, h, h.le]
    · simp [PyFloat.max, h]

/-- A value that is at least zero is finite or positive infinity. -/
theorem eq_fin_or_posInf_of_zero_le {x : PyFloat} (h : le (fin 0) x = true) :
    (∃ q, 0 ≤ q ∧ x = fin q) ∨ x = posInf := by
  cases x with
  | nan => cases h
  | negInf => cases h
  | posInf => exact Or.inr rfl
  | fin q => exact Or.inl ⟨q, of_decide_eq_true h, rfl⟩

/-- A value above a number is another number or positive infinity. -/
theorem fin_lt_iff {p : ℚ} {x : PyFloat} :
    lt (fin p) x = true ↔ (∃ q, p < q ∧ x = fin q) ∨ x = posInf := by
  cases x <;> simp [lt]

/-- `max(0.0, x)` is `x` when that is not negative. -/
theorem max_zero_of_le {x : PyFloat} (h : le (fin 0) x = true) : PyFloat.max (fin 0) x = x := by
  rcases eq_fin_or_posInf_of_zero_le h with ⟨q, hq, rfl⟩ | rfl
  · rcases hq.lt_or_eq with hlt | rfl
    · simp [PyFloat.max, hlt]
    · simp [PyFloat.max]
  · rfl

/-- `min(1.0, x)` is between 0 and 1 when `x` is not negative. -/
theorem min_one_of_zero_le {x : PyFloat} (h : le (fin 0) x = true) :
    ∃ q : ℚ, PyFloat.min (fin 1) x = fin q ∧ 0 ≤ q ∧ q ≤ 1 := by
  rcases eq_fin_or_posInf_of_zero_le h with ⟨q, hq, rfl⟩ | rfl
  · by_cases hlt : q < 1
    · exact ⟨q, by simp [PyFloat.min, hlt], hq, hlt.le⟩
    · exact ⟨1, by simp [PyFloat.min, hlt], zero_le_one, le_rfl⟩
  · exact ⟨1, rfl, zero_le_one, le_rfl⟩

/-- `min(1.0, x)` is `x` when that is at most 1. -/
theorem min_one_of_le {q : ℚ} (h : q ≤ 1) : PyFloat.min (fin 1) (fin q) = fin q := by
  rcases h.lt_or_eq with hlt | rfl
  · simp [PyFloat.min, hlt]
  · simp [PyFloat.min]

/-- `x <= _` only gets easier to satisfy as the right side grows. -/
theorem le_fin_mono {x : PyFloat} {p q : ℚ} (hpq : p ≤ q) (h : le x (fin p) = true) :
    le x (fin q) = true := by
  cases x with
  | nan => cases h
  | negInf => rfl
  | posInf => cases h
  | fin r => exact decide_eq_true ((of_decide_eq_true h).trans hpq)

/-- `time.sleep`: the platform's clock represents durations up to `limit`. -/
def timeSleep (limit : ℚ) : PyFloat → Except PyError Unit
  | nan => .error .valueError
  | negInf => .error .overflowError
  | posInf => .error .overflowError
  | fin q =>
    if limit < |q| then .error .overflowError
    else if q < 0 then .error .valueError
    else .ok ()

end PyFloat
