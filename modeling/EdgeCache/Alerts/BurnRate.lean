import EdgeCache.Alerts.HitRatio
import EdgeCache.Foundations.PromQL
import Mathlib.Algebra.Order.BigOperators.Group.Finset
import Mathlib.Data.Rat.Floor

/-!
# The burn-rate alerts

The recording rules and the four alerts on the error budgets of `k8s/slo-rules.yaml`. A service
level indicator is the ratio of bad requests to all in a trailing window: of the requests that are
answered with 5xx, or of those that take longer than 200 ms. The rules record it every 30 s, and
every 30 s an alert reads the last record of two windows. It waits until both have exceeded a
multiple of the budget for a while.

`isSome_expr` says what an expression results in, without vectors and samples that are not numbers.
From it, exactly when an alert fires, in what time it detects an incident, and when it resolves
(`burnAlert_detects`).
-/

namespace EdgeCache.Alerts

open PromQL

variable {S T K : Type*} [Fintype S] [Fintype T] [Field K] [LinearOrder K]

/-! ## The rules -/

/-- The series of route `/segment` at all targets. -/
structure SliCounters (S T K : Type*) [Preorder K] [Sub K] where
  /-- The label `status` of a series of `http_requests_total`. -/
  status : S → String
  httpRequestsTotal : S → K → K
  /-- The bucket `le="0.2"`. -/
  requestLatencySecondsBucket : T → K → K
  requestLatencySecondsCount : T → K → K
  monotone_requests : ∀ s, Monotone (httpRequestsTotal s)
  monotone_bucket : ∀ i, Monotone (requestLatencySecondsBucket i)
  monotone_slow : ∀ i, Monotone fun t =>
    requestLatencySecondsCount i t - requestLatencySecondsBucket i t

/-- `status=~"5.."`. -/
def matches5xx (status : String) : Bool :=
  match status.toList with
  | ['5', _, _] => true
  | _ => false

/-- `sum(rate(c[w]))` at time `t`, of the series that `select` selects. -/
def sumOfRates {ι : Type*} [Fintype ι] (c : ι → K → K) (select : ι → Bool) (w t : K) : InstantVector K :=
  PromQL.sum fun i => if select i then some (rate (c i) w t) else none

/-- The indicators. -/
inductive Sli
  | availability
  | latency

/-- A recorded indicator, with its window. -/
structure Record (K : Type*) where
  sli : Sli
  window : K

/-- The expression that is recorded at time `t`. -/
def Record.expr (r : Record K) (c : SliCounters S T K) (t : K) : InstantVector K :=
  match r.sli with
  | .availability =>
    InstantVector.div
      ((sumOfRates c.httpRequestsTotal (fun s => matches5xx (c.status s)) r.window t).or (vector 0))
      (sumOfRates c.httpRequestsTotal (fun _ => true) r.window t)
  | .latency =>
    InstantVector.sub (vector 1)
      (InstantVector.div (sumOfRates c.requestLatencySecondsBucket (fun _ => true) r.window t)
        (sumOfRates c.requestLatencySecondsCount (fun _ => true) r.window t))

def availabilityBadRatioRate5m : Record K := ⟨.availability, 300⟩

def availabilityBadRatioRate30m : Record K := ⟨.availability, 1800⟩

def availabilityBadRatioRate1h : Record K := ⟨.availability, 3600⟩

def availabilityBadRatioRate6h : Record K := ⟨.availability, 21600⟩

def latencyBadRatioRate30m : Record K := ⟨.latency, 1800⟩

def latencyBadRatioRate6h : Record K := ⟨.latency, 21600⟩

/-- An alert on two records of an indicator, with its hold in minutes. -/
structure BurnAlert (K : Type*) [Field K] [LinearOrder K] where
  long : Record K
  short : Record K
  threshold : K
  minutes : ℕ
  sli_eq : short.sli = long.sli
  short_pos : 0 < short.window
  short_le : short.window ≤ long.window
  threshold_nonneg : 0 ≤ threshold

/-- Its hold, in seconds. -/
def BurnAlert.hold (a : BurnAlert K) : ℕ := 60 * a.minutes

/-- Its expression, when the indicators were last recorded at time `t`. -/
def BurnAlert.expr (a : BurnAlert K) (c : SliCounters S T K) (t : K) : InstantVector K :=
  InstantVector.and ((a.long.expr c t).gt a.threshold) ((a.short.expr c t).gt a.threshold)

variable [IsStrictOrderedRing K]

def edgeCacheAvailabilityFastBurn : BurnAlert K where
  long := availabilityBadRatioRate1h
  short := availabilityBadRatioRate5m
  threshold := 14.4 * 0.001
  minutes := 2
  sli_eq := rfl
  short_pos := by norm_num [availabilityBadRatioRate5m]
  short_le := by norm_num [availabilityBadRatioRate5m, availabilityBadRatioRate1h]
  threshold_nonneg := by norm_num

def edgeCacheAvailabilitySlowBurn : BurnAlert K where
  long := availabilityBadRatioRate6h
  short := availabilityBadRatioRate30m
  threshold := 6 * 0.001
  minutes := 15
  sli_eq := rfl
  short_pos := by norm_num [availabilityBadRatioRate30m]
  short_le := by norm_num [availabilityBadRatioRate30m, availabilityBadRatioRate6h]
  threshold_nonneg := by norm_num

def edgeCacheLatencySlowBurn : BurnAlert K where
  long := latencyBadRatioRate6h
  short := latencyBadRatioRate30m
  threshold := 6 * 0.01
  minutes := 15
  sli_eq := rfl
  short_pos := by norm_num [latencyBadRatioRate30m]
  short_le := by norm_num [latencyBadRatioRate30m, latencyBadRatioRate6h]
  threshold_nonneg := by norm_num

/-- The interval of the recording rules, in seconds. -/
def recordingInterval : ℕ := 30

/-- The last time up to `t` at which the indicators were recorded. -/
def lastRecording [FloorRing K] (phase t : K) : K :=
  phase + recordingInterval * ⌊(t - phase) / recordingInterval⌋

/-- The alert is firing after evaluation `n`, with the hold as the rule manager keeps it. -/
def BurnAlert.Firing [FloorRing K] (a : BurnAlert K) (c : SliCounters S T K) (recording phase : K)
    (n : ℕ) : Prop :=
  (Hold.run (evaluation phase)
    (fun k => (a.expr c (lastRecording recording (evaluation phase k))).isSome) n).Firing
      (a.hold : K) (evaluation phase n)

/-! ## What the expressions say -/

/-- All requests, or all observations of a latency. -/
def Sli.total (i : Sli) (c : SliCounters S T K) (t : K) : K :=
  match i with
  | .availability => ∑ s, c.httpRequestsTotal s t
  | .latency => ∑ i, c.requestLatencySecondsCount i t

/-- The bad ones among them. -/
def Sli.bad (i : Sli) (c : SliCounters S T K) (t : K) : K :=
  match i with
  | .availability => ∑ s with matches5xx (c.status s), c.httpRequestsTotal s t
  | .latency => ∑ i, (c.requestLatencySecondsCount i t - c.requestLatencySecondsBucket i t)

/-- In the `w` seconds before `t` there were requests, of which more than a portion `θ` was bad. -/
def Burns (i : Sli) (c : SliCounters S T K) (θ w t : K) : Prop :=
  0 < i.total c t - i.total c (t - w) ∧
    θ * (i.total c t - i.total c (t - w)) < i.bad c t - i.bad c (t - w)

omit [LinearOrder K] [IsStrictOrderedRing K] in
/-- A sum of rates, when there are series. -/
theorem sumOfRates_eq {ι : Type*} [Fintype ι] (c : ι → K → K) (select : ι → Bool) (w t : K) :
    sumOfRates c select w t =
      if ∃ i, select i = true then
        some (.num ((∑ i with select i, c i t - ∑ i with select i, c i (t - w)) / w))
      else none := by
  have hsome : (∃ i, (if select i then some (rate (c i) w t) else none).isSome) ↔
      ∃ i, select i = true := exists_congr fun i => by split_ifs <;> simp [*]
  simp only [sumOfRates, PromQL.sum, hsome]
  congr 3
  rw [← Finset.sum_sub_distrib, Finset.sum_div, Finset.sum_filter]
  exact Finset.sum_congr rfl fun i _ => by split_ifs <;> rfl

/-- Multiplying by the length of the window. -/
theorem div_lt_div_window {x y w θ : K} (hw : 0 < w) :
    (0 < y / w ∧ θ * (y / w) < x / w) ↔ 0 < y ∧ θ * y < x := by
  rw [div_pos_iff_of_pos_right hw, ← mul_div_assoc, div_lt_div_iff_of_pos_right hw]

/-- What a series has gained in a window is not negative. -/
theorem sum_sub_nonneg {ι : Type*} {c : ι → K → K} (hc : ∀ i, Monotone (c i)) (s : Finset ι) {w : K}
    (hw : 0 < w) (t : K) : 0 ≤ ∑ i ∈ s, c i t - ∑ i ∈ s, c i (t - w) := by
  rw [← Finset.sum_sub_distrib]
  exact Finset.sum_nonneg fun i _ => sub_nonneg.2 (hc i (by linarith))

omit [LinearOrder K] [IsStrictOrderedRing K] in
/-- The rate of all series, if there are any. -/
theorem sumOfRates_all {ι : Type*} [Fintype ι] [Nonempty ι] (c : ι → K → K) (w t : K) :
    sumOfRates c (fun _ => true) w t =
      some (.num ((∑ i, c i t - ∑ i, c i (t - w)) / w)) := by
  rw [sumOfRates_eq, if_pos ⟨Classical.arbitrary ι, rfl⟩]
  simp only [Finset.filter_true]

omit [LinearOrder K] [IsStrictOrderedRing K] in
theorem sumOfRates_empty {ι : Type*} [Fintype ι] [IsEmpty ι] (c : ι → K → K) (select : ι → Bool)
    (w t : K) : sumOfRates c select w t = none := by
  rw [sumOfRates_eq, if_neg fun ⟨i, _⟩ => isEmptyElim i]

omit [LinearOrder K] [IsStrictOrderedRing K] in
/-- The rate of some of them, or zero. -/
theorem sumOfRates_or_zero {ι : Type*} [Fintype ι] (c : ι → K → K) (select : ι → Bool) (w t : K) :
    (sumOfRates c select w t).or (vector 0) =
      some (.num ((∑ i with select i, c i t - ∑ i with select i, c i (t - w)) / w)) := by
  rw [sumOfRates_eq]
  split_ifs with h
  · rfl
  · have hempty : Finset.univ.filter (fun i => select i = true) = ∅ :=
      Finset.filter_eq_empty_iff.2 fun i _ hi => h ⟨i, hi⟩
    simp [hempty, vector]

/-- **What an indicator says that exceeds a bound.** -/
theorem isSome_gt_expr {r : Record K} (hw : 0 < r.window) (c : SliCounters S T K) (θ t : K) :
    ((r.expr c t).gt θ).isSome ↔ Burns r.sli c θ r.window t := by
  obtain ⟨i, w⟩ := r
  cases i with
  | availability =>
    simp only [Record.expr, Burns, Sli.total, Sli.bad, sumOfRates_or_zero]
    rcases isEmpty_or_nonempty S with hS | hS
    · simp [sumOfRates_empty, InstantVector.div, InstantVector.gt]
    · have hbad := sum_sub_nonneg c.monotone_requests
        (Finset.univ.filter fun s => matches5xx (c.status s) = true) hw t
      have hrest := sum_sub_nonneg c.monotone_requests
        (Finset.univ.filter fun s => ¬ matches5xx (c.status s) = true) hw t
      have hsplit := fun t => Finset.sum_filter_add_sum_filter_not Finset.univ
        (fun s => matches5xx (c.status s) = true) fun s => c.httpRequestsTotal s t
      have hle : ∑ s with matches5xx (c.status s), c.httpRequestsTotal s t -
            ∑ s with matches5xx (c.status s), c.httpRequestsTotal s (t - w) ≤
          ∑ s, c.httpRequestsTotal s t - ∑ s, c.httpRequestsTotal s (t - w) := by
        rw [← hsplit t, ← hsplit (t - w)]
        linarith
      rw [sumOfRates_all, isSome_gt]
      simp only [InstantVector.div, Option.map₂_some_some, Option.mem_some_iff, exists_eq_left']
      rw [gt_div (div_nonneg hbad hw.le) (div_le_div_of_nonneg_right hle hw.le),
        div_lt_div_window hw]
  | latency =>
    simp only [Record.expr, Burns, Sli.total, Sli.bad, Finset.sum_sub_distrib]
    rcases isEmpty_or_nonempty T with hT | hT
    · simp [sumOfRates_empty, InstantVector.div, InstantVector.sub, InstantVector.gt]
    · have hgood := sum_sub_nonneg c.monotone_bucket Finset.univ hw t
      have hslow := sum_sub_nonneg c.monotone_slow Finset.univ hw t
      simp only [Finset.sum_sub_distrib] at hslow
      rw [sumOfRates_all, sumOfRates_all, isSome_gt]
      simp only [InstantVector.div, InstantVector.sub, vector, Option.map₂_some_some,
        Option.mem_some_iff, exists_eq_left']
      rw [gt_sub_div (div_nonneg hgood hw.le) (div_le_div_of_nonneg_right (by linarith) hw.le),
        ← sub_div, div_lt_div_window hw]
      refine and_congr_right fun _ => ?_
      constructor <;> intro h <;> linarith

/-- Both windows of the alert burn. -/
def BurnAlert.Burning (a : BurnAlert K) (c : SliCounters S T K) (t : K) : Prop :=
  Burns a.long.sli c a.threshold a.long.window t ∧ Burns a.long.sli c a.threshold a.short.window t

theorem isSome_expr (a : BurnAlert K) (c : SliCounters S T K) (t : K) :
    (a.expr c t).isSome ↔ a.Burning c t := by
  have hlong : 0 < a.long.window := a.short_pos.trans_le a.short_le
  rw [BurnAlert.expr, isSome_and, isSome_gt_expr hlong, isSome_gt_expr a.short_pos, a.sli_eq]
  rfl

/-! ## When the alerts fire -/

variable [FloorRing K]

theorem lastRecording_le (phase t : K) : lastRecording phase t ≤ t := by
  have := Int.floor_le ((t - phase) / (recordingInterval : K))
  rw [le_div_iff₀ (by norm_num [recordingInterval])] at this
  simp only [lastRecording]
  linarith

theorem lt_lastRecording (phase t : K) : t - 30 < lastRecording phase t := by
  have := Int.sub_one_lt_floor ((t - phase) / (recordingInterval : K))
  rw [sub_lt_iff_lt_add, div_lt_iff₀ (by norm_num [recordingInterval])] at this
  have hinterval : (recordingInterval : K) = 30 := by norm_num [recordingInterval]
  simp only [lastRecording]
  rw [hinterval] at this ⊢
  linarith

/-- At the evaluations back to one that is the hold ago, both windows burned when they were
recorded. -/
def BurnAlert.Sustained (a : BurnAlert K) (c : SliCounters S T K) (recording phase : K) (n : ℕ) :
    Prop :=
  ∃ m ≤ n, evaluation phase m ≤ evaluation phase n - a.hold ∧
    ∀ k, m ≤ k → k ≤ n → a.Burning c (lastRecording recording (evaluation phase k))

theorem firing_iff_sustained (a : BurnAlert K) (c : SliCounters S T K) (recording phase : K) (n : ℕ) :
    a.Firing c recording phase n ↔ a.Sustained c recording phase n := by
  refine (Hold.firing_run_iff (monotone_evaluation phase)).trans ?_
  simp only [Hold.Throughout, isSome_expr, BurnAlert.Sustained]

/-! ## Incidents -/

/-- Traffic of `rate` requests per second, give or take `burst` requests: it never exceeds that, and
does not fall below it from `F` to `G`. -/
structure Steady (total : K → K) (F G rate burst : K) : Prop where
  traffic_le : ∀ s t, s ≤ t → total t - total s ≤ rate * (t - s) + burst
  traffic_ge : ∀ s t, F ≤ s → s ≤ t → t ≤ G → rate * (t - s) - burst ≤ total t - total s
  rate_pos : 0 < rate
  burst_nonneg : 0 ≤ burst

/-- From `F` to `G`, at least a portion `ε` of a steady traffic is bad. -/
structure Incident (a : BurnAlert K) (c : SliCounters S T K) (F G ε rate burst : K) : Prop
    extends Steady (a.long.sli.total c) F G rate burst where
  bad : ∀ s t, F ≤ s → s ≤ t → t ≤ G →
    ε * (a.long.sli.total c t - a.long.sli.total c s) ≤ a.long.sli.bad c t - a.long.sli.bad c s
  /-- More is bad than the alert tolerates. -/
  exceeds : a.threshold < ε
  /-- The short window is not empty. -/
  busy : burst < rate * a.short.window

/-- The time that it takes until a portion `ε` of bad requests burns a window of `w` seconds. -/
def burnTime (θ w ε rate burst : K) : K := (θ * (rate * w + burst) + ε * burst) / (ε * rate)

omit [FloorRing K] in
theorem monotone_bad (i : Sli) (c : SliCounters S T K) : Monotone (i.bad c) := fun s t h => by
  cases i with
  | availability => exact Finset.sum_le_sum fun s _ => c.monotone_requests s h
  | latency => exact Finset.sum_le_sum fun i _ => c.monotone_slow i h

omit [FloorRing K] in
theorem monotone_total (i : Sli) (c : SliCounters S T K) : Monotone (i.total c) := fun s t h => by
  cases i with
  | availability => exact Finset.sum_le_sum fun s _ => c.monotone_requests s h
  | latency =>
    refine Finset.sum_le_sum fun i _ => ?_
    have hslow : _ ≤ _ := c.monotone_slow i h
    have hbucket := c.monotone_bucket i h
    simp only at hslow
    linarith

section Incident

variable {a : BurnAlert K} {c : SliCounters S T K} {F G ε rate burst : K}

omit [FloorRing K] in
/-- The windows of an incident burn, each from its time on. -/
theorem Incident.burns (h : Incident a c F G ε rate burst) {w t : K} (hw : a.short.window ≤ w)
    (hF : F + burnTime a.threshold w ε rate burst < t) (hG : t ≤ G) :
    Burns a.long.sli c a.threshold w t := by
  have hε : 0 < ε := a.threshold_nonneg.trans_lt h.exceeds
  have hwpos : 0 < w := a.short_pos.trans_le hw
  have hθ := a.threshold_nonneg
  have hrate := h.rate_pos
  have hburst := h.burst_nonneg
  -- what the incident adds up to exceeds what the window tolerates
  have hlong : a.threshold * (rate * w + burst) < ε * (rate * (t - F) - burst) := by
    have hlt : burnTime a.threshold w ε rate burst < t - F := by linarith
    rw [burnTime, div_lt_iff₀ (mul_pos hε hrate)] at hlt
    linarith
  have htolerated : 0 ≤ a.threshold * (rate * w + burst) := by positivity
  have hsince : 0 < rate * (t - F) - burst :=
    (mul_pos_iff_of_pos_left hε).1 (htolerated.trans_lt hlong)
  have hFt : F ≤ t := by
    by_contra hlt
    have : rate * (t - F) ≤ 0 := mul_nonpos_of_nonneg_of_nonpos hrate.le (by linarith)
    linarith
  rcases le_total (t - w) F with hstart | hstart
  · -- the incident began in the window
    have htotal := h.traffic_ge F t le_rfl hFt hG
    have hbad := h.bad F t le_rfl hFt hG
    have hbefore := monotone_total a.long.sli c hstart
    have hbadbefore := monotone_bad a.long.sli c hstart
    have hle := h.traffic_le (t - w) t (by linarith)
    rw [sub_sub_cancel] at hle
    refine ⟨by linarith, ?_⟩
    calc a.threshold * (a.long.sli.total c t - a.long.sli.total c (t - w))
        ≤ a.threshold * (rate * w + burst) := mul_le_mul_of_nonneg_left hle hθ
      _ < ε * (rate * (t - F) - burst) := hlong
      _ ≤ ε * (a.long.sli.total c t - a.long.sli.total c F) := mul_le_mul_of_nonneg_left htotal hε.le
      _ ≤ a.long.sli.bad c t - a.long.sli.bad c F := hbad
      _ ≤ a.long.sli.bad c t - a.long.sli.bad c (t - w) := by linarith
  · -- the window is all of the incident
    have htotal := h.traffic_ge (t - w) t hstart (by linarith) hG
    have hbad := h.bad (t - w) t hstart (by linarith) hG
    rw [sub_sub_cancel] at htotal
    have hbusy : burst < rate * w := h.busy.trans_le (mul_le_mul_of_nonneg_left hw hrate.le)
    have hpos : 0 < a.long.sli.total c t - a.long.sli.total c (t - w) := by linarith
    exact ⟨hpos, (mul_lt_mul_of_pos_right h.exceeds hpos).trans_le hbad⟩

omit [FloorRing K] in
theorem Incident.burning (h : Incident a c F G ε rate burst) {t : K}
    (hF : F + burnTime a.threshold a.long.window ε rate burst < t) (hG : t ≤ G) : a.Burning c t := by
  refine ⟨h.burns a.short_le hF hG, h.burns le_rfl (lt_of_le_of_lt ?_ hF) hG⟩
  have hε : 0 < ε := a.threshold_nonneg.trans_lt h.exceeds
  have hden : 0 < ε * rate := mul_pos hε h.rate_pos
  have hwindow : rate * a.short.window ≤ rate * a.long.window :=
    mul_le_mul_of_nonneg_left a.short_le h.rate_pos.le
  have hnum : a.threshold * (rate * a.short.window + burst) ≤
      a.threshold * (rate * a.long.window + burst) :=
    mul_le_mul_of_nonneg_left (by linarith) a.threshold_nonneg
  have := div_le_div_of_nonneg_right (c := ε * rate)
    (show a.threshold * (rate * a.short.window + burst) + ε * burst ≤
      a.threshold * (rate * a.long.window + burst) + ε * burst by linarith) hden.le
  simp only [burnTime]
  linarith

omit [FloorRing K] in
/-- When no request of the short window is bad, it does not burn. -/
theorem not_burning (hover : ∀ t, G ≤ t → a.long.sli.bad c t = a.long.sli.bad c G) {t : K}
    (hG : G + a.short.window ≤ t) : ¬ a.Burning c t := by
  rintro ⟨-, hpos, hlt⟩
  have hnow := hover t (by linarith [a.short_pos])
  have hthen := hover (t - a.short.window) (by linarith)
  rw [hnow, hthen, sub_self] at hlt
  have := mul_nonneg a.threshold_nonneg hpos.le
  linarith

end Incident

/-- At the evaluations of an incident, once the long window has burned for the hold. -/
theorem Incident.sustained {a : BurnAlert K} {c : SliCounters S T K} {F G ε rate burst : K}
    (h : Incident a c F G ε rate burst) {recording phase : K} {n : ℕ} (hn : 2 * a.minutes ≤ n)
    (hF : F + burnTime a.threshold a.long.window ε rate burst + 30 + a.hold ≤
      evaluation phase n) (hG : evaluation phase n ≤ G) : a.Sustained c recording phase n := by
  have hhold : (a.hold : K) = 60 * a.minutes := by simp [BurnAlert.hold]
  refine ⟨n - 2 * a.minutes, Nat.sub_le _ _, ?_, fun k hk hkn => ?_⟩
  · simp only [evaluation, Nat.cast_sub hn, hhold]
    push_cast
    linarith
  · have hkn' : evaluation phase k ≤ evaluation phase n := monotone_evaluation phase hkn
    have hnk : evaluation phase n - a.hold ≤ evaluation phase k := by
      have hle : (n : K) ≤ k + 2 * a.minutes := by exact_mod_cast (by omega : n ≤ k + 2 * a.minutes)
      simp only [evaluation, hhold]
      linarith
    have hlow := lt_lastRecording recording (evaluation phase k)
    have hhigh := lastRecording_le recording (evaluation phase k)
    exact h.burning (by linarith) (by linarith)

/-- **The burn-rate alerts detect incidents in time, resolve in time, and report nothing else.**
While an incident lasts, the alert fires at every evaluation from the time on that the long window
takes to burn, plus 30 s for the record and the hold. When no more requests are bad, it has stopped
firing once the short window is past the last one, plus 30 s. And it fires at an evaluation exactly
when both windows have burned throughout the hold, as they were recorded. -/
theorem burnAlert_detects (a : BurnAlert K) (c : SliCounters S T K) (recording phase : K) :
    (∀ F G ε rate burst, Incident a c F G ε rate burst → ∀ n, 2 * a.minutes ≤ n →
      F + burnTime a.threshold a.long.window ε rate burst + 30 + a.hold ≤ evaluation phase n →
      evaluation phase n ≤ G → a.Firing c recording phase n) ∧
    (∀ G, (∀ t, G ≤ t → a.long.sli.bad c t = a.long.sli.bad c G) → ∀ n,
      G + a.short.window + 30 ≤ evaluation phase n → ¬ a.Firing c recording phase n) ∧
    ∀ n, a.Firing c recording phase n ↔ a.Sustained c recording phase n := by
  refine ⟨fun F G ε rate burst h n hn hF hG => ?_, fun G hover n hG hfiring => ?_,
    firing_iff_sustained a c recording phase⟩
  · exact (firing_iff_sustained a c recording phase n).2 (h.sustained hn hF hG)
  · obtain ⟨m, hm, -, hburning⟩ := (firing_iff_sustained a c recording phase n).1 hfiring
    have hlow := lt_lastRecording recording (evaluation phase n)
    exact not_burning hover (by linarith) (hburning n hm le_rfl)

/-! ## An incident -/

/-- One target, which fails all of two requests a second for ten minutes. -/
def failing : SliCounters Unit Empty ℚ where
  status := fun _ => "500"
  httpRequestsTotal := fun _ t => 2 * min (max t 0) 600
  requestLatencySecondsBucket := nofun
  requestLatencySecondsCount := nofun
  monotone_requests := fun _ _ _ h =>
    mul_le_mul_of_nonneg_left (min_le_min_right 600 (max_le_max_right 0 h)) (by norm_num)
  monotone_bucket := nofun
  monotone_slow := nofun

theorem bad_failing (t : ℚ) : Sli.bad .availability failing t = 2 * min (max t 0) 600 := by
  have h500 : matches5xx "500" = true := rfl
  simp [Sli.bad, failing, h500]

theorem incident_failing : Incident edgeCacheAvailabilityFastBurn failing 0 600 1 2 0 := by
  have htotal : ∀ t, Sli.total .availability failing t = 2 * min (max t 0) 600 := fun t => by
    simp [Sli.total, failing]
  have hduring : ∀ t : ℚ, 0 ≤ t → t ≤ 600 → min (max t 0) 600 = t := fun t h0 h1 => by
    rw [max_eq_left h0, min_eq_left h1]
  refine ⟨⟨fun s t hst => ?_, fun s t h0 hst h1 => ?_, by norm_num, le_rfl⟩,
    fun s t h0 hst h1 => ?_, by norm_num [edgeCacheAvailabilityFastBurn],
    by norm_num [edgeCacheAvailabilityFastBurn, availabilityBadRatioRate5m]⟩ <;>
    simp only [edgeCacheAvailabilityFastBurn, availabilityBadRatioRate1h, htotal, bad_failing]
  · have hclamp : min (max t 0) 600 - min (max s 0) 600 ≤ t - s := by
      rcases le_total s 0 with hs | hs <;> rcases le_total t 0 with ht | ht <;>
        rcases le_total t 600 with ht' | ht' <;> rcases le_total s 600 with hs' | hs' <;>
        simp [*] <;> linarith
    linarith
  · rw [hduring t (by linarith) h1, hduring s h0 (by linarith)]
    linarith
  · linarith

/-- The fast alert fires at the evaluation after three and a half minutes, and has stopped six
minutes after the end. -/
theorem burnAlert_detects_failing :
    edgeCacheAvailabilityFastBurn.Firing failing 0 0 7 ∧
      ¬ edgeCacheAvailabilityFastBurn.Firing failing 0 0 32 := by
  obtain ⟨hdetects, hresolves, -⟩ := burnAlert_detects edgeCacheAvailabilityFastBurn failing 0 0
  constructor
  · refine hdetects _ _ _ _ _ incident_failing 7 ?_ ?_ ?_ <;>
      norm_num [edgeCacheAvailabilityFastBurn, availabilityBadRatioRate1h, burnTime, evaluation,
        BurnAlert.hold]
  · refine hresolves 600 (fun t ht => ?_) 32 ?_
    · simp only [edgeCacheAvailabilityFastBurn, availabilityBadRatioRate1h, bad_failing]
      rw [max_eq_left (by linarith), min_eq_right ht]
      norm_num
    · norm_num [edgeCacheAvailabilityFastBurn, availabilityBadRatioRate5m, evaluation]

end EdgeCache.Alerts
