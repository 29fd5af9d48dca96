import Mathlib.Tactic.IntervalCases

/-!
# Hexadecimal numbers

`Hex.format n x` is Python's `format(x, "0nx")`: the hexadecimal digits of `x`, padded with zeros on
the left to the width `n`. Its width is exactly `n` when `x` fits (`length_format`), and the number
can be read back (`ofChars_format`).
-/

namespace Hex

/-- The value of a lowercase hexadecimal digit. -/
def value (c : Char) : ℕ :=
  if c.toNat < 'a'.toNat then c.toNat - '0'.toNat else c.toNat - 'a'.toNat + 10

/-- The number with the given digits, the most significant one first. -/
def ofChars (cs : List Char) : ℕ := cs.foldl (fun x c => 16 * x + value c) 0

/-- `format(x, "0nx")`. -/
def format (n x : ℕ) : List Char := (Nat.toDigits 16 x).leftpad n '0'

theorem value_digitChar {d : ℕ} (hd : d < 16) : value d.digitChar = d := by
  interval_cases d <;> rfl

theorem ofChars_append_singleton (cs : List Char) (c : Char) :
    ofChars (cs ++ [c]) = 16 * ofChars cs + value c := by
  simp [ofChars]

theorem ofChars_toDigits (x : ℕ) : ofChars (Nat.toDigits 16 x) = x := by
  induction x using Nat.strongRecOn with
  | ind x ih =>
    rcases lt_or_ge x 16 with hx | hx
    · rw [Nat.toDigits_of_lt_base hx]
      exact (zero_add _).trans (value_digitChar hx)
    · rw [Nat.toDigits_of_base_le (by decide) hx, ofChars_append_singleton, ih (x / 16) (by omega),
        value_digitChar (Nat.mod_lt x (by decide))]
      exact Nat.div_add_mod x 16

/-- Zeros on the left do not change the number. -/
theorem ofChars_replicate_append (n : ℕ) (cs : List Char) :
    ofChars (List.replicate n '0' ++ cs) = ofChars cs := by
  induction n with
  | zero => rfl
  | succ n ih =>
    rw [List.replicate_succ, List.cons_append]
    exact ih

/-- **Reading back** what has been formatted. -/
theorem ofChars_format (n x : ℕ) : ofChars (format n x) = x := by
  rw [format, List.leftpad, ofChars_replicate_append, ofChars_toDigits]

theorem length_format {n x : ℕ} (hn : 0 < n) (hx : x < 16 ^ n) : (format n x).length = n := by
  have hle := (Nat.length_toDigits_le_iff (b := 16) (by decide) hn).2 hx
  rw [format, List.length_leftpad, max_eq_left hle]

end Hex
