import EdgeCache.Foundations.Crossing
import Mathlib.Algebra.Order.Floor.Ring
import Mathlib.Tactic.NormNum

/-!
# The capacity forecast

`months_to` of `docs/capacity/capacity_forecast.py`, over exact numbers: how many months are left
until the traffic, which changes by a constant factor each month, reaches a threshold. Divisions by
zero and logarithms of numbers that are not positive raise.

Below the threshold, `monthsTo` solves for the time at which the traffic is equal to it, and raises
when the traffic is flat (`exists_monthsTo`, `monthsTo_flat`). That time is in the past when the
traffic declines, and `monthsTo` returns it although the threshold is never reached from now on.
With every other trend the forecast is right (`monthsTo_correct_iff`).
-/

namespace EdgeCache.Capacity

open Crossing

/-! ## Arithmetic -/

/-- The exceptions of Python's arithmetic over exact numbers. -/
inductive MathError
  | zeroDivisionError
  | valueError
  deriving DecidableEq, Repr

/-- What a computation that returns has gone through. -/
theorem bind_eq_ok {α β : Type} {x : Except MathError α} {f : α → Except MathError β} {y : β} :
    x >>= f = .ok y ↔ ∃ a, x = .ok a ∧ f a = .ok y := by
  cases x with
  | error e => simp [bind, Except.bind]
  | ok a => simp [bind, Except.bind]

section Field

variable {K : Type} [Field K] [LinearOrder K]

/-- `x / y`. -/
def trueDiv (x y : K) : Except MathError K :=
  if y = 0 then .error .zeroDivisionError else .ok (x / y)

theorem trueDiv_of_ne (x : K) {y : K} (h : y ≠ 0) : trueDiv x y = .ok (x / y) := if_neg h

end Field

/-- `math.log`. -/
noncomputable def mathLog (x : ℝ) : Except MathError ℝ :=
  if 0 < x then .ok (Real.log x) else .error .valueError

theorem mathLog_of_pos {x : ℝ} (h : 0 < x) : mathLog x = .ok (Real.log x) := if_pos h

/-! ## Months to a threshold -/

/-- The traffic in `t` months, `peak(t)`. -/
noncomputable def traffic (peak0 g t : ℝ) : ℝ := peak0 * (1 + g) ^ t

/-- `months_to`. -/
noncomputable def monthsTo (threshold peak0 g : ℝ) : Except MathError ℝ :=
  if peak0 ≤ 0 ∨ threshold ≤ peak0 then .ok 0
  else do
    let logRatio ← mathLog (← trueDiv threshold peak0)
    let logGrowth ← mathLog (1 + g)
    trueDiv logRatio logGrowth

/-- The times from now on at which the traffic reaches the threshold. -/
def reachedAt (threshold peak0 g : ℝ) : Set ℝ := reachedFrom 0 (traffic peak0 g) threshold

/-- The forecast is the first time at which the threshold is reached, and there is none if it is
not. -/
structure ForecastCorrect (threshold peak0 g : ℝ) : Prop where
  reached : (reachedAt threshold peak0 g).Nonempty →
    ∃ t, monthsTo threshold peak0 g = .ok t ∧ IsLeast (reachedAt threshold peak0 g) t
  unreached : ¬ (reachedAt threshold peak0 g).Nonempty → ∀ t, monthsTo threshold peak0 g ≠ .ok t

section MonthsTo

variable {threshold peak0 g : ℝ}

theorem monthsTo_of_le (g : ℝ) (h : threshold ≤ peak0) : monthsTo threshold peak0 g = .ok 0 :=
  if_pos (Or.inr h)

/-- Below the threshold, the logarithm of the ratio is divided by that of the growth. -/
theorem monthsTo_of_lt (hpeak : 0 < peak0) (h : peak0 < threshold) (hg : -1 < g) :
    monthsTo threshold peak0 g =
      trueDiv (Real.log (threshold / peak0)) (Real.log (1 + g)) := by
  have hcond : ¬ (peak0 ≤ 0 ∨ threshold ≤ peak0) := not_or.2 ⟨hpeak.not_ge, h.not_ge⟩
  have hratio : 0 < threshold / peak0 := div_pos (hpeak.trans h) hpeak
  have hgrowth : 0 < 1 + g := by linarith
  rw [monthsTo, if_neg hcond, trueDiv_of_ne _ hpeak.ne']
  simp only [mathLog_of_pos hratio, mathLog_of_pos hgrowth, bind, Except.bind]

/-- Flat traffic below the threshold makes it raise. -/
theorem monthsTo_flat (hpeak : 0 < peak0) (h : peak0 < threshold) :
    monthsTo threshold peak0 0 = .error .zeroDivisionError := by
  simp [monthsTo_of_lt hpeak h (by norm_num : (-1 : ℝ) < 0), trueDiv]

/-- With any other trend it returns the time at which the traffic is at the threshold. -/
theorem exists_monthsTo (hpeak : 0 < peak0) (h : peak0 < threshold) (hg : -1 < g) (hg' : g ≠ 0) :
    ∃ t, monthsTo threshold peak0 g = .ok t ∧ traffic peak0 g t = threshold ∧ (0 < t ↔ 0 < g) := by
  have hb : 0 < 1 + g := by linarith
  have hb' : 1 + g ≠ 1 := by simpa using hg'
  refine ⟨Real.log (threshold / peak0) / Real.log (1 + g), ?_, ?_, ?_⟩
  · rw [monthsTo_of_lt hpeak h hg, trueDiv_of_ne _ (Real.log_ne_zero_of_pos_of_ne_one hb hb')]
  · exact compound_log_div_log hpeak (hpeak.trans h) hb hb'
  · rw [log_div_log_pos_iff hpeak h hb]
    exact lt_add_iff_pos_right 1

/-- It is the first time if the traffic grows or is there already. -/
theorem isLeast_monthsTo (hpeak : 0 < peak0) (h : threshold ≤ peak0 ∨ 0 < g) :
    ∃ t, monthsTo threshold peak0 g = .ok t ∧ IsLeast (reachedAt threshold peak0 g) t := by
  rcases le_or_gt threshold peak0 with hle | hlt
  · refine ⟨0, monthsTo_of_le g hle, isLeast_reachedFrom_of_le ?_⟩
    simpa [traffic] using hle
  · have hg : 0 < g := h.resolve_left hlt.not_ge
    have hmono : StrictMono (traffic peak0 g) := strictMono_compound hpeak (by linarith)
    obtain ⟨t, ht, hcross, hpos⟩ := exists_monthsTo hpeak hlt (by linarith) hg.ne'
    exact ⟨t, ht, isLeast_reachedFrom_of_strictMono hmono hcross (hpos.2 hg).le⟩

theorem isLeast_of_monthsTo {t : ℝ} (hpeak : 0 < peak0) (h : threshold ≤ peak0 ∨ 0 < g)
    (ht : monthsTo threshold peak0 g = .ok t) : IsLeast (reachedAt threshold peak0 g) t := by
  obtain ⟨t', ht', hleast⟩ := isLeast_monthsTo hpeak h
  obtain rfl := Except.ok.inj (ht'.symm.trans ht)
  exact hleast

/-- Traffic that does not grow never gets above what it is now. -/
theorem not_reached (hpeak : 0 < peak0) (h : peak0 < threshold) (hg : -1 < g) (hg' : g ≤ 0) :
    ¬ (reachedAt threshold peak0 g).Nonempty := by
  have hanti : Antitone (traffic peak0 g) :=
    antitone_compound hpeak.le (by linarith) (by linarith)
  exact not_nonempty_reachedFrom hanti (by simpa [traffic] using h)

/-- A positive number of months is the first time, whatever the trend. -/
theorem isLeast_of_monthsTo_pos {t : ℝ} (hpeak : 0 < peak0) (hg : -1 < g)
    (ht : monthsTo threshold peak0 g = .ok t) (hpos : 0 < t) :
    traffic peak0 g t = threshold ∧ IsLeast (reachedAt threshold peak0 g) t := by
  rcases le_or_gt threshold peak0 with hle | hlt
  · rw [monthsTo_of_le g hle] at ht
    exact absurd (Except.ok.inj ht) hpos.ne
  · rcases eq_or_ne g 0 with rfl | hne
    · rw [monthsTo_flat hpeak hlt] at ht
      cases ht
    · obtain ⟨t', ht', hcross, hsign⟩ := exists_monthsTo hpeak hlt hg hne
      obtain rfl := Except.ok.inj (ht'.symm.trans ht)
      exact ⟨hcross, isLeast_of_monthsTo hpeak (Or.inr (hsign.1 hpos)) ht⟩

/-- **The forecast is correct exactly when the traffic does not decline or has reached the threshold
already.** -/
theorem monthsTo_correct_iff (hpeak : 0 < peak0) (hg : -1 < g) :
    ForecastCorrect threshold peak0 g ↔ threshold ≤ peak0 ∨ 0 ≤ g := by
  constructor
  · intro hcorrect
    by_contra hnot
    obtain ⟨hlt, hneg⟩ := not_or.1 hnot
    obtain ⟨t, ht, -⟩ := exists_monthsTo hpeak (not_le.1 hlt) hg (not_le.1 hneg).ne
    exact hcorrect.unreached (not_reached hpeak (not_le.1 hlt) hg (not_le.1 hneg).le) t ht
  · intro h
    by_cases hfirst : threshold ≤ peak0 ∨ 0 < g
    · obtain ⟨t, ht, hleast⟩ := isLeast_monthsTo hpeak hfirst
      exact ⟨fun _ => ⟨t, ht, hleast⟩, fun hnot => absurd ⟨t, hleast.1⟩ hnot⟩
    · -- flat traffic below the threshold never reaches it, and makes the division raise
      obtain ⟨hlt, hflat⟩ := not_or.1 hfirst
      obtain rfl : g = 0 := le_antisymm (not_lt.1 hflat) (h.resolve_left hlt)
      have hnever := not_reached hpeak (not_le.1 hlt) hg le_rfl
      refine ⟨fun hreached => absurd hreached hnever, fun _ t => ?_⟩
      simp [monthsTo_flat hpeak (not_le.1 hlt)]

end MonthsTo

/-- With the inputs of the script, the date for another replica is right. -/
theorem monthsTo_correct_addReplica : ForecastCorrect 2100 800 (12 / 100) :=
  (monthsTo_correct_iff (by norm_num) (by norm_num)).2 (Or.inr (by norm_num))

/-- A peak of 800 rps that is halved every month reaches 1600 rps in -1 months, and never from now
on. -/
theorem monthsTo_declining : monthsTo 1600 800 (-1 / 2) = .ok (-1) ∧
    ¬ (reachedAt 1600 800 (-1 / 2)).Nonempty ∧ ¬ ForecastCorrect 1600 800 (-1 / 2) := by
  have hmonths : monthsTo 1600 800 (-1 / 2) = .ok (-1) := by
    have hlog : Real.log (1 + -1 / 2) = -Real.log 2 := by
      rw [← Real.log_inv]
      norm_num
    have h2 : Real.log 2 ≠ 0 := (Real.log_pos one_lt_two).ne'
    rw [monthsTo_of_lt (by norm_num) (by norm_num) (by norm_num), hlog,
      trueDiv_of_ne _ (neg_ne_zero.2 h2)]
    norm_num [div_neg, div_self h2]
  have hnever : ¬ (reachedAt 1600 800 (-1 / 2)).Nonempty :=
    not_reached (by norm_num) (by norm_num) (by norm_num) (by norm_num)
  exact ⟨hmonths, hnever, fun hcorrect => hcorrect.unreached hnever _ hmonths⟩

end EdgeCache.Capacity
