import EdgeCache.Alerts.HitRatio
import EdgeCache.Foundations.PromQL
import Mathlib.Algebra.Order.BigOperators.Group.Finset

/-!
# The alerts on what is down

`EdgeCacheServiceDown` and `EdgeCacheRedisDown` of `k8s/slo-rules.yaml`, which read gauges and wait
for a minute. The first asks whether no target is up, the second whether some replica reports that
Redis is down: with no target at all, the first alert is raised (`isSome_edgeCacheServiceDown`) and
the second one is not (`isSome_edgeCacheRedisDown`).
-/

namespace EdgeCache.Alerts

open PromQL

variable {ι K : Type*} [Fintype ι] [Field K] [LinearOrder K]

/-- `(sum(up) or vector(0)) == 0`, at time `t`. -/
def edgeCacheServiceDown (up : ι → K → K) (t : K) : InstantVector K :=
  InstantVector.eq ((PromQL.sum fun i => some (up i t)).or (vector 0)) 0

/-- `min(redis_up) == 0`. -/
def edgeCacheRedisDown (redisUp : ι → K → K) (t : K) : InstantVector K :=
  InstantVector.eq (minOf fun i => redisUp i t) 0

/-- An alert with `for: 1m` is firing after evaluation `n`. -/
def FiringMinute (expr : K → InstantVector K) (phase : K) (n : ℕ) : Prop :=
  (Hold.run (evaluation phase) (fun k => (expr (evaluation phase k)).isSome) n).Firing 60
    (evaluation phase n)

variable [IsStrictOrderedRing K]

/-- No target is up. -/
theorem isSome_edgeCacheServiceDown {up : ι → K → K} {t : K} (hup : ∀ i, 0 ≤ up i t) :
    (edgeCacheServiceDown up t).isSome ↔ ∀ i, up i t = 0 := by
  rw [edgeCacheServiceDown, isSome_eq]
  rcases isEmpty_or_nonempty ι with hι | hι
  · simp [PromQL.sum, vector, Sample.eq]
  · have hsum : ∑ i, up i t = 0 ↔ ∀ i, up i t = 0 :=
      (Finset.sum_eq_zero_iff_of_nonneg fun i _ => hup i).trans (by simp)
    simp [PromQL.sum, Sample.eq, hsum]

omit [IsStrictOrderedRing K] in
/-- Some replica reports that Redis is down. -/
theorem isSome_edgeCacheRedisDown {redisUp : ι → K → K} {t : K} (hup : ∀ i, 0 ≤ redisUp i t) :
    (edgeCacheRedisDown redisUp t).isSome ↔ ∃ i, redisUp i t = 0 := by
  rw [edgeCacheRedisDown, isSome_eq_minOf]
  exact and_iff_left hup

/-- Such an alert fires when the last three evaluations have raised it. -/
theorem firingMinute_iff {expr : K → InstantVector K} {phase : K} {n : ℕ} :
    FiringMinute expr phase n ↔
      2 ≤ n ∧ ∀ k, n - 2 ≤ k → k ≤ n → (expr (evaluation phase k)).isSome := by
  have hpos : (0 : K) < 30 := by norm_num
  have htime : ∀ k : ℕ, evaluation phase k = phase + 30 * k := fun _ => rfl
  have h : (Hold.run (evaluation phase) (fun k => (expr (evaluation phase k)).isSome) n).Firing
      (30 * ((2 : ℕ) : K)) (evaluation phase n) ↔ _ := Hold.firing_regular_iff hpos htime 2 n
  have h60 : (30 : K) * (2 : ℕ) = 60 := by norm_num
  rwa [h60] at h

end EdgeCache.Alerts
