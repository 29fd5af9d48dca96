import EdgeCache.Foundations.Hold
import Mathlib.Algebra.BigOperators.Field
import Mathlib.Algebra.Order.Floor.Ring
import Mathlib.Data.Fintype.BigOperators
import Mathlib.Tactic.NormNum

/-!
# The alert on the hit ratio

`EdgeCacheHitRatioCollapsed` of `k8s/slo-rules.yaml`, over the hit and miss counters of any number
of targets. The counters do not reset, so `rate(c[2m])` is their increase over the window divided by
its length. The rules are evaluated every 30 s from no particular time on, and `for: 2m` asks that
the expression has held at every evaluation of the last two minutes.

The expression holds exactly when the window has more misses than hits, and more than 120 requests
(`hitRatioCollapsed_iff`): `clamp_min` makes no difference under that much traffic. From this, the
bound on the time to detection and the absence of false alarms
(`edgeCacheHitRatioCollapsed_detects`).
-/

namespace EdgeCache.Alerts

variable {ι K : Type*} [Fintype ι] [Field K] [LinearOrder K]

/-! ## The rule -/

/-- The histories of `cache_hits_total` and `cache_misses_total` at each target. -/
structure Counters (ι K : Type*) [Preorder K] where
  cacheHitsTotal : ι → K → K
  cacheMissesTotal : ι → K → K
  monotone_hits : ∀ i, Monotone (cacheHitsTotal i)
  monotone_misses : ∀ i, Monotone (cacheMissesTotal i)

/-- `rate(c[w])` at time `t`, of a counter without resets. -/
def rate (c : K → K) (w t : K) : K := (c t - c (t - w)) / w

/-- `clamp_min`. -/
def clampMin (x lower : K) : K := max x lower

/-- `sum(rate(c{job="edge-cache"}[2m]))`. -/
def sumRate (c : ι → K → K) (t : K) : K := ∑ i, rate (c i) 120 t

/-- The expression of the alert. -/
def HitRatioCollapsed (c : Counters ι K) (t : K) : Prop :=
  sumRate c.cacheHitsTotal t /
      clampMin (sumRate c.cacheHitsTotal t + sumRate c.cacheMissesTotal t) 1 < 1 / 2 ∧
    1 < sumRate c.cacheHitsTotal t + sumRate c.cacheMissesTotal t

instance (c : Counters ι K) : DecidablePred (HitRatioCollapsed c) :=
  fun _ => inferInstanceAs (Decidable (_ ∧ _))

/-- The rules are evaluated at time `t`. -/
def IsEvaluation (phase t : K) : Prop := ∃ k : ℤ, t = phase + 30 * k

/-- The alert is firing at time `t`: `for: 2m`. -/
def Firing (c : Counters ι K) (phase t : K) : Prop :=
  ∀ e, IsEvaluation phase e → t - 120 ≤ e → e ≤ t → HitRatioCollapsed c e

/-! ## What the expression says -/

/-- What the counters of all targets have gained in the two minutes before `t`. -/
def increase (c : ι → K → K) (t : K) : K := ∑ i, (c i t - c i (t - 120))

omit [LinearOrder K] in
theorem sumRate_eq (c : ι → K → K) (t : K) : sumRate c t = increase c t / 120 := by
  simp only [sumRate, rate, increase, Finset.sum_div]

variable [IsStrictOrderedRing K]

/-- **The expression holds exactly when the trailing window has more misses than hits and more than
120 requests.** -/
theorem hitRatioCollapsed_iff (c : Counters ι K) (t : K) :
    HitRatioCollapsed c t ↔
      increase c.cacheHitsTotal t < increase c.cacheMissesTotal t ∧
        120 < increase c.cacheHitsTotal t + increase c.cacheMissesTotal t := by
  have h120 : (0 : K) < 120 := by norm_num
  simp only [HitRatioCollapsed, sumRate_eq, ← add_div]
  generalize increase c.cacheHitsTotal t = h
  generalize increase c.cacheMissesTotal t = m
  rw [one_lt_div h120, and_congr_left_iff]
  intro htraffic
  have hpos : 0 < h + m := h120.trans htraffic
  have hclamp : clampMin ((h + m) / 120) 1 = (h + m) / 120 :=
    max_eq_left ((one_le_div h120).2 htraffic.le)
  rw [hclamp, div_div_div_cancel_right₀ h120.ne', div_lt_div_iff₀ hpos two_pos]
  constructor <;> intro hlt <;> linarith

/-! ## Total outages -/

/-- After `F` no target has a hit, and together they have more than 120 misses in every two
minutes. -/
structure Outage (c : Counters ι K) (F : K) : Prop where
  hits : ∀ i t, F ≤ t → c.cacheHitsTotal i t = c.cacheHitsTotal i F
  misses : ∀ t, F ≤ t → 120 < increase c.cacheMissesTotal (t + 120)

/-- The expression holds from two minutes after the start of an outage on. -/
theorem Outage.hitRatioCollapsed {c : Counters ι K} {F t : K} (h : Outage c F) (ht : F + 120 ≤ t) :
    HitRatioCollapsed c t := by
  have hstart : F ≤ t - 120 := by linarith
  have hhits : increase c.cacheHitsTotal t = 0 := Finset.sum_eq_zero fun i _ => by
    rw [h.hits i t (by linarith), h.hits i (t - 120) hstart, sub_self]
  have hmisses := h.misses (t - 120) hstart
  rw [sub_add_cancel] at hmisses
  rw [hitRatioCollapsed_iff, hhits]
  constructor <;> linarith

/-- The alert fires from four minutes after the start of an outage on. -/
theorem Outage.firing {c : Counters ι K} {F phase t : K} (h : Outage c F) (ht : F + 240 ≤ t) :
    Firing c phase t := fun e _ he _ => h.hitRatioCollapsed (by linarith)

/-- There is an evaluation in every 30 seconds. -/
theorem exists_isEvaluation [FloorRing K] (phase t : K) :
    ∃ e, IsEvaluation phase e ∧ t ≤ e ∧ e < t + 30 := by
  refine ⟨_, ⟨⌈(t - phase) / 30⌉, rfl⟩, ?_, ?_⟩
  · have := Int.le_ceil ((t - phase) / 30)
    rw [div_le_iff₀ (by norm_num)] at this
    linarith
  · have := Int.ceil_lt_add_one ((t - phase) / 30)
    rw [← sub_lt_iff_lt_add, lt_div_iff₀ (by norm_num)] at this
    linarith

/-- So it first fires less than four and a half minutes after the start of an outage. -/
theorem Outage.exists_firing [FloorRing K] {c : Counters ι K} {F : K} (h : Outage c F) (phase : K) :
    ∃ t, IsEvaluation phase t ∧ t < F + 270 ∧ ∀ t', t ≤ t' → Firing c phase t' := by
  obtain ⟨t, ht, hle, hlt⟩ := exists_isEvaluation phase (F + 240)
  exact ⟨t, ht, by linarith, fun t' ht' => h.firing (by linarith)⟩

/-- **The alert detects every total outage in time, and nothing else**: for all counters, however
the evaluations fall. -/
theorem edgeCacheHitRatioCollapsed_detects (c : Counters ι K) (phase : K) :
    (∀ F, Outage c F → ∀ t, IsEvaluation phase t → F + 270 ≤ t → Firing c phase t) ∧
      ∀ t, IsEvaluation phase t → Firing c phase t →
        ∀ e, IsEvaluation phase e → t - 120 ≤ e → e ≤ t →
          increase c.cacheHitsTotal e < increase c.cacheMissesTotal e ∧
            120 < increase c.cacheHitsTotal e + increase c.cacheMissesTotal e := by
  constructor
  · intro F hF t _ ht
    exact hF.firing (by linarith)
  · intro t _ hfiring e he hte het
    exact (hitRatioCollapsed_iff c e).1 (hfiring e he hte het)

/-- One target, with a hundred hits per second until time 0, and two misses per second from
then on. -/
def redisOutage : Counters Unit ℚ where
  cacheHitsTotal := fun _ t => 100 * min t 0
  cacheMissesTotal := fun _ t => 2 * max t 0
  monotone_hits := fun _ _ _ h => mul_le_mul_of_nonneg_left (min_le_min_right 0 h) (by norm_num)
  monotone_misses := fun _ _ _ h => mul_le_mul_of_nonneg_left (max_le_max_right 0 h) (by norm_num)

theorem outage_redisOutage : Outage redisOutage 0 where
  hits := fun _ t ht => by simp [redisOutage, ht]
  misses := fun t ht => by
    have : 0 ≤ t + 120 := by linarith
    simp only [increase, redisOutage, Finset.univ_unique, Finset.sum_singleton, add_sub_cancel_right,
      max_eq_left ht, max_eq_left this]
    linarith

/-- That outage is reported at the evaluation after four and a half minutes, when the last window
had 240 requests, all of them misses. -/
theorem redisOutage_detected :
    Firing redisOutage 0 270 ∧ 0 < increase redisOutage.cacheMissesTotal 270 := by
  have hdetects := edgeCacheHitRatioCollapsed_detects redisOutage 0
  have heval : IsEvaluation (0 : ℚ) 270 := ⟨9, by norm_num⟩
  have hfiring := hdetects.1 0 outage_redisOutage 270 heval (by norm_num)
  obtain ⟨hlt, htraffic⟩ :=
    hdetects.2 270 heval hfiring 270 heval (by norm_num) le_rfl
  exact ⟨hfiring, by linarith⟩

/-! ## The hold as the rule manager keeps it -/

/-- The time of evaluation `k`. -/
def evaluation (phase : K) (k : ℕ) : K := phase + 30 * k

omit [LinearOrder K] [IsStrictOrderedRing K] in
theorem isEvaluation_evaluation (phase : K) (k : ℕ) : IsEvaluation phase (evaluation phase k) :=
  ⟨k, by simp [evaluation]⟩

theorem monotone_evaluation (phase : K) : Monotone (evaluation phase) := fun m n h => by
  have : (m : K) ≤ n := by exact_mod_cast h
  simp only [evaluation]
  linarith

/-- **The rule manager keeps no more than the time at which the alert became active**, and fires at
the same evaluations, from the fifth one on. -/
theorem firing_iff_status (c : Counters ι K) (phase : K) {n : ℕ} (hn : 4 ≤ n) :
    (Hold.run (evaluation phase) (fun k => HitRatioCollapsed c (evaluation phase k)) n).Firing 120
        (evaluation phase n) ↔ Firing c phase (evaluation phase n) := by
  have htime : ∀ k : ℕ, evaluation phase k = phase + 30 * k := fun _ => rfl
  have hpos : (0 : K) < 30 := by norm_num
  have h : (Hold.run (evaluation phase) (fun k => HitRatioCollapsed c (evaluation phase k)) n).Firing
      (30 * ((4 : ℕ) : K)) (evaluation phase n) ↔ _ := Hold.firing_regular_iff hpos htime 4 n
  have h120 : (30 : K) * (4 : ℕ) = 120 := by norm_num
  rw [h120] at h
  refine h.trans ⟨?_, fun hfiring => ⟨hn, fun k hk hkn => ?_⟩⟩
  · rintro ⟨-, hexpr⟩ e ⟨k, rfl⟩ hlow hhigh
    simp only [evaluation] at hlow hhigh
    have h1 : (n : K) ≤ k + 4 := by linarith
    have h2 : (k : K) ≤ n := by linarith
    have h1' : (n : ℤ) ≤ k + 4 := by exact_mod_cast h1
    have h2' : k ≤ (n : ℤ) := by exact_mod_cast h2
    obtain ⟨j, rfl⟩ := Int.eq_ofNat_of_zero_le (a := k) (by omega)
    have := hexpr j (by omega) (by omega)
    simpa [evaluation] using this
  · have h1 : n ≤ k + 4 := by omega
    have h1' : (n : K) ≤ k + 4 := by exact_mod_cast h1
    have h2' : (k : K) ≤ n := by exact_mod_cast hkn
    refine hfiring _ (isEvaluation_evaluation phase k) ?_ ?_ <;> simp only [evaluation] <;> linarith

end EdgeCache.Alerts
