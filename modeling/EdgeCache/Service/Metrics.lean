import EdgeCache.Foundations.Script
import Mathlib.Data.List.Count
import Mathlib.Data.Rat.Defs

/-!
# The metrics of the segment route

The metrics of `app/metrics.py` that `get_segment` in `app/main.py` updates. A labelled counter is
given by its increments, a histogram by its observations. Each update is atomic, and every count is
additive, in the sense of `Script.Additive`.
-/

namespace EdgeCache.Service

structure Metrics where
  inflightRequests : ℤ
  cacheHitsTotal : ℕ
  cacheMissesTotal : ℕ
  originFetchLatencySeconds : List ℚ
  /-- The observations, each with its route. -/
  requestLatencySeconds : List (String × ℚ)
  /-- The increments, each with its route and status. -/
  httpRequestsTotal : List (String × String)
  deriving DecidableEq

/-- The metrics of a new process. -/
def Metrics.init : Metrics where
  inflightRequests := 0
  cacheHitsTotal := 0
  cacheMissesTotal := 0
  originFetchLatencySeconds := []
  requestLatencySeconds := []
  httpRequestsTotal := []

inductive MetricUpdate
  | inflightInc
  | inflightDec
  | cacheHitsInc
  | cacheMissesInc
  | originFetchObserve (seconds : ℚ)
  | requestLatencyObserve (route : String) (seconds : ℚ)
  | httpRequestsInc (route status : String)
  deriving DecidableEq

def MetricUpdate.apply (u : MetricUpdate) (m : Metrics) : Metrics :=
  match u with
  | .inflightInc => { m with inflightRequests := m.inflightRequests + 1 }
  | .inflightDec => { m with inflightRequests := m.inflightRequests - 1 }
  | .cacheHitsInc => { m with cacheHitsTotal := m.cacheHitsTotal + 1 }
  | .cacheMissesInc => { m with cacheMissesTotal := m.cacheMissesTotal + 1 }
  | .originFetchObserve x =>
    { m with originFetchLatencySeconds := x :: m.originFetchLatencySeconds }
  | .requestLatencyObserve route x =>
    { m with requestLatencySeconds := (route, x) :: m.requestLatencySeconds }
  | .httpRequestsInc route status =>
    { m with httpRequestsTotal := (route, status) :: m.httpRequestsTotal }

/-- `http_requests_total{route, status}`. -/
def Metrics.httpRequests (m : Metrics) (route status : String) : ℕ :=
  m.httpRequestsTotal.count (route, status)

/-- `http_requests_total{route}`, over all statuses. -/
def Metrics.httpRequestsOf (m : Metrics) (route : String) : ℕ :=
  m.httpRequestsTotal.countP fun l => l.1 = route

/-- `request_latency_seconds_count{route}`. -/
def Metrics.requestLatencyCount (m : Metrics) (route : String) : ℕ :=
  m.requestLatencySeconds.countP fun l => l.1 = route

/-! ## The counts are additive -/

open Script

def inflightWeight : MetricUpdate → ℤ
  | .inflightInc => 1
  | .inflightDec => -1
  | _ => 0

/-- The weight of an update in the sum of `cache_hits_total` and `cache_misses_total`. -/
def lookupWeight : MetricUpdate → ℤ
  | .cacheHitsInc => 1
  | .cacheMissesInc => 1
  | _ => 0

def missWeight : MetricUpdate → ℤ
  | .cacheMissesInc => 1
  | _ => 0

def originFetchWeight : MetricUpdate → ℤ
  | .originFetchObserve _ => 1
  | _ => 0

def latencyWeight (route : String) : MetricUpdate → ℤ
  | .requestLatencyObserve r _ => if r = route then 1 else 0
  | _ => 0

/-- The weight of an update in `http_requests_total{route, status}`. -/
def statusWeight (route status : String) (u : MetricUpdate) : ℤ :=
  if u = .httpRequestsInc route status then 1 else 0

/-- The weight of an update in `http_requests_total{route}`. -/
def routeWeight (route : String) : MetricUpdate → ℤ
  | .httpRequestsInc r _ => if r = route then 1 else 0
  | _ => 0

theorem additive_inflight :
    Additive MetricUpdate.apply (fun m => m.inflightRequests) inflightWeight := by
  intro u m
  cases u <;> simp [MetricUpdate.apply, inflightWeight, sub_eq_add_neg]

theorem additive_lookups :
    Additive MetricUpdate.apply (fun m => (m.cacheHitsTotal + m.cacheMissesTotal : ℤ))
      lookupWeight := by
  intro u m
  cases u <;> simp [MetricUpdate.apply, lookupWeight] <;> omega

theorem additive_misses :
    Additive MetricUpdate.apply (fun m => (m.cacheMissesTotal : ℤ)) missWeight := by
  intro u m
  cases u <;> simp [MetricUpdate.apply, missWeight]

theorem additive_originFetches :
    Additive MetricUpdate.apply (fun m => (m.originFetchLatencySeconds.length : ℤ))
      originFetchWeight := by
  intro u m
  cases u <;> simp [MetricUpdate.apply, originFetchWeight]

theorem additive_requestLatencyCount (route : String) :
    Additive MetricUpdate.apply (fun m => (m.requestLatencyCount route : ℤ))
      (latencyWeight route) := by
  intro u m
  cases u <;>
    simp [MetricUpdate.apply, Metrics.requestLatencyCount, List.countP_cons, latencyWeight]

theorem additive_httpRequests (route status : String) :
    Additive MetricUpdate.apply (fun m => (m.httpRequests route status : ℤ))
      (statusWeight route status) := by
  intro u m
  cases u <;> simp [MetricUpdate.apply, Metrics.httpRequests, List.count_cons, statusWeight]

theorem additive_httpRequestsOf (route : String) :
    Additive MetricUpdate.apply (fun m => (m.httpRequestsOf route : ℤ)) (routeWeight route) := by
  intro u m
  cases u <;> simp [MetricUpdate.apply, Metrics.httpRequestsOf, List.countP_cons, routeWeight]

end EdgeCache.Service
