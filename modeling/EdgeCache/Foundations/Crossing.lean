import Mathlib.Analysis.SpecialFunctions.Log.Base

/-!
# When a threshold is reached

A quantity that changes with time has reached a threshold, from a given time on, at the times of
`reachedFrom`. Where the values that reach it are those of a final segment, its start is the first
of them (`isLeast_reachedFrom`), and a quantity that never grows does not reach more than it starts
from (`not_nonempty_reachedFrom`).

`compound` is exponential growth in real time, by a constant factor in each unit of it. It passes
every positive value exactly once unless the factor is 1 (`compound_log_div_log`).
-/

namespace Crossing

/-! ## First times -/

section Order

variable {α β : Type*} [LinearOrder α] [Preorder β] {a t : α} {f : α → β} {c c' : β}

/-- The times from `a` on at which `f` is at least `c`. -/
def reachedFrom (a : α) (f : α → β) (c : β) : Set α := {t | a ≤ t ∧ c ≤ f t}

theorem isLeast_reachedFrom_of_le (h : c ≤ f a) : IsLeast (reachedFrom a f c) a :=
  ⟨⟨le_rfl, h⟩, fun _ ht => ht.1⟩

/-- The first time, when the threshold is reached from `t` on. -/
theorem isLeast_reachedFrom (h : ∀ u, c ≤ f u ↔ t ≤ u) :
    IsLeast (reachedFrom a f c) (max a t) :=
  ⟨⟨le_max_left a t, (h _).2 (le_max_right a t)⟩, fun u hu => max_le hu.1 ((h u).1 hu.2)⟩

/-- A growing quantity reaches each of its values when it takes it. -/
theorem isLeast_reachedFrom_of_strictMono (hf : StrictMono f) (ht : f t = c) (hat : a ≤ t) :
    IsLeast (reachedFrom a f c) t := by
  have h : ∀ u, c ≤ f u ↔ t ≤ u := fun u => by rw [← ht, hf.le_iff_le]
  simpa [hat] using isLeast_reachedFrom (a := a) h

/-- What never grows does not reach more than it starts from. -/
theorem not_nonempty_reachedFrom (hf : Antitone f) (h : f a < c) :
    ¬ (reachedFrom a f c).Nonempty := by
  rintro ⟨t, hat, ht⟩
  exact (h.trans_le ht).not_ge (hf hat)

/-- A higher threshold is not reached earlier. -/
theorem first_le_first {t' : α} (hc : c ≤ c') (h : IsLeast (reachedFrom a f c) t)
    (h' : IsLeast (reachedFrom a f c') t') : t ≤ t' :=
  h'.mono h fun _ hu => ⟨hu.1, hc.trans hu.2⟩

end Order

/-! ## Exponential growth -/

open Real

/-- What `p` has become at time `t`, by a factor of `b` in each unit of time. -/
noncomputable def compound (p b t : ℝ) : ℝ := p * b ^ t

variable {p b c : ℝ}

theorem strictMono_compound (hp : 0 < p) (hb : 1 < b) : StrictMono (compound p b) :=
  fun _ _ h => mul_lt_mul_of_pos_left ((rpow_lt_rpow_left_iff hb).2 h) hp

theorem antitone_compound (hp : 0 ≤ p) (hb : 0 < b) (hb' : b ≤ 1) : Antitone (compound p b) :=
  fun _ _ h => mul_le_mul_of_nonneg_left (rpow_le_rpow_of_exponent_ge hb hb' h) hp

/-- The time at which the value is `c`. -/
theorem compound_log_div_log (hp : 0 < p) (hc : 0 < c) (hb : 0 < b) (hb' : b ≠ 1) :
    compound p b (log (c / p) / log b) = c := by
  rw [compound, log_div_log, rpow_logb hb hb' (div_pos hc hp), mul_div_cancel₀ _ hp.ne']

/-- That is in the future when the value grows to more than it is. -/
theorem log_div_log_pos_iff (hp : 0 < p) (hc : p < c) (hb : 0 < b) :
    0 < log (c / p) / log b ↔ 1 < b := by
  have hratio : 0 < log (c / p) := log_pos ((one_lt_div hp).2 hc)
  rw [div_pos_iff_of_pos_left hratio, log_pos_iff hb.le]

end Crossing
