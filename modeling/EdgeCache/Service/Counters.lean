import EdgeCache.Service.Handler

/-!
# What the counters say

A request of the segment route is meant to be counted once, with the status which the client
receives (`CountedOnce`). `countedOnce_iff` says for which requests this is so. A request that ends
with an exception is received as 500, but one that raises before `_observe` is not counted at all,
and one whose id cannot be encoded in a header is counted as 200 before the response fails
(`id_outside_latin1_counted_as_200`).
-/

namespace EdgeCache.Service

open Cache Script

variable (c : ServiceConfig) (v : Visit)

/-! ## One request -/

/-- The request increments exactly one counter of the route, that of the status received. -/
def CountedOnce : Prop := ∀ m : Metrics,
  let m' := applyAll MetricUpdate.apply (serve c v).2 m
  m'.httpRequestsOf "/segment" = m.httpRequestsOf "/segment" + 1 ∧
    m'.httpRequests "/segment" (toString (received c v)) =
      m.httpRequests "/segment" (toString (received c v)) + 1

/-- The response to a found segment can be built exactly when the id can be encoded. -/
theorem init_eq (data : Bytes) (hit : Bool) (id : String) :
    Response.init data "application/octet-stream"
        [("X-Cache", if hit then "HIT" else "MISS"), ("X-Segment-Id", id)] =
      if Latin1 id then
        .ok ⟨200, "application/octet-stream", data,
          [("X-Cache".toList.map fun c => c.toNat.toUInt8,
              (if hit then "HIT" else "MISS").toList.map fun c => c.toNat.toUInt8),
            ("X-Segment-Id".toList.map fun c => c.toNat.toUInt8,
              id.toList.map fun c => c.toNat.toUInt8)]⟩
      else .error .unicodeEncodeError := by
  have h₁ : Latin1 "X-Cache" := by simp [Latin1]
  have h₂ : Latin1 "X-Segment-Id" := by simp [Latin1]
  have h₃ : Latin1 (if hit then "HIT" else "MISS") := by
    cases hit <;> simp [Latin1]
  simp only [Response.init, encodeLatin1, List.mapM_cons, List.mapM_nil, h₁, h₂, h₃, if_true]
  by_cases h : Latin1 id <;> simp only [h, if_true, if_false] <;> rfl

/-- `_observe` counts once, -/
theorem routeWeight_observed (status : ℕ) :
    weight (routeWeight "/segment") (observed v "/segment" status) = 1 := by
  unfold observed
  split <;> simp [routeWeight]

/-- under the status that it is given. -/
theorem statusWeight_observed (status : ℕ) (s : String) :
    weight (statusWeight "/segment" s) (observed v "/segment" status) =
      if toString status = s then 1 else 0 := by
  unfold observed
  split <;> simp [statusWeight]

theorem routeWeight_resultUpdates (result : SegmentResult) :
    weight (routeWeight "/segment") (resultUpdates result) = 0 := by
  unfold resultUpdates
  split <;> simp [routeWeight]

theorem statusWeight_resultUpdates (result : SegmentResult) (s : String) :
    weight (statusWeight "/segment" s) (resultUpdates result) = 0 := by
  unfold resultUpdates
  split <;> simp [statusWeight]

theorem countedOnce_iff_weight : CountedOnce c v ↔
    weight (routeWeight "/segment") (serve c v).2 = 1 ∧
      weight (statusWeight "/segment" (toString (received c v))) (serve c v).2 = 1 := by
  have hroute := fun m => (additive_httpRequestsOf "/segment").applyAll (serve c v).2 m
  have hstatus := fun m =>
    (additive_httpRequests "/segment" (toString (received c v))).applyAll (serve c v).2 m
  constructor
  · intro h
    have hr := hroute Metrics.init
    have hs := hstatus Metrics.init
    rw [(h Metrics.init).1] at hr
    rw [(h Metrics.init).2] at hs
    push_cast at hr hs
    exact ⟨by omega, by omega⟩
  · rintro ⟨h₁, h₂⟩ m
    have hr := hroute m
    have hs := hstatus m
    rw [h₁] at hr
    rw [h₂] at hs
    exact ⟨by exact_mod_cast hr, by exact_mod_cast hs⟩

theorem applyLatency_eq_ok_iff {limit : ℚ} {chaos : ChaosRead → ChaosState} :
    applyLatency limit chaos = .ok () ↔
      (PyFloat.lt (.fin 0) (chaos .latencyTest).latencySeconds = true →
        PyFloat.timeSleep limit (chaos .latencySleep).latencySeconds = .ok ()) := by
  unfold applyLatency
  split_ifs with h <;> simp [h]

/-- The segment can be fetched from the origin, and, unless the cache is bypassed, stored. -/
def FetchReturns : Prop :=
  PyFloat.timeSleep c.sleepLimit c.originLatencySeconds = .ok () ∧
    SizeFits c.segmentSizeBytes v.segmentId ∧
    ((v.chaos .bypass).cacheBypass = false → c.backend = .memory → PyFloat.Fits c.segmentTtlSeconds)

theorem exists_lookupSegment_iff : (∃ result, lookupSegment c v = .ok result) ↔
    ((v.chaos .bypass).cacheBypass = false ∧ v.cached.isSome = true) ∨ FetchReturns c v := by
  have hfetch : (∃ data, originFetch c.segmentSizeBytes c.sleepLimit c.originLatencySeconds
      v.segmentId = .ok data) ↔ PyFloat.timeSleep c.sleepLimit c.originLatencySeconds = .ok () ∧
        SizeFits c.segmentSizeBytes v.segmentId := by
    simp [originFetch_eq_ok, exists_generateSegmentBytes_iff]
  rw [lookupSegment, FetchReturns, ← and_assoc, ← hfetch, ← writeOutcome_eq_ok]
  by_cases hmiss : (v.chaos .bypass).cacheBypass = true ∨ v.cached = none
  · have hhit : ¬ ((v.chaos .bypass).cacheBypass = false ∧ v.cached.isSome = true) := by
      rcases hmiss with hbypass | hcached
      · simp [hbypass]
      · simp [hcached]
    cases hdata : originFetch c.segmentSizeBytes c.sleepLimit c.originLatencySeconds v.segmentId with
    | error e => simp [segmentOutcome_of_fetchRaised hdata hmiss, hhit]
    | ok data =>
      rw [segmentOutcome_of_fetch hdata hmiss]
      simp only [hhit, false_or, Except.ok.injEq, exists_eq', true_and]
      cases (v.chaos .bypass).cacheBypass <;>
        cases writeOutcome c.backend c.segmentTtlSeconds <;> simp [Except.map]
  · obtain ⟨hbypass, hcached⟩ := not_or.1 hmiss
    obtain ⟨data, hdata⟩ := Option.ne_none_iff_exists'.1 hcached
    simp [segmentOutcome, hbypass, hdata]

/-- **A request is counted once, with the status that the client receives, exactly when** the
injected latency is a duration that `time.sleep` accepts, and either a fault is injected, or the
segment is found (in the cache, or at the origin, if the fetch and the write of the cache return)
and its id can be encoded in a header. -/
theorem countedOnce_iff : CountedOnce c v ↔
    (PyFloat.lt (.fin 0) (v.chaos .latencyTest).latencySeconds = true →
        PyFloat.timeSleep c.sleepLimit (v.chaos .latencySleep).latencySeconds = .ok ()) ∧
      (shouldError v.draw v.chaos = true ∨
        (((v.chaos .bypass).cacheBypass = false ∧ v.cached.isSome = true) ∨ FetchReturns c v) ∧
          Latin1 v.segmentId) := by
  rw [countedOnce_iff_weight, ← applyLatency_eq_ok_iff, ← exists_lookupSegment_iff, received]
  have hserve := serve_eq c v
  cases hlatency : applyLatency c.sleepLimit v.chaos with
  | error e =>
    -- the injected latency raises: nothing is counted
    simp only [hlatency] at hserve
    simp [hserve, routeWeight]
  | ok u =>
    cases hfault : shouldError v.draw v.chaos with
    | true =>
      simp only [hlatency, hfault] at hserve
      simp [hserve, weight_append, routeWeight_observed, statusWeight_observed, routeWeight,
        statusWeight, injectedFault]
    | false =>
      cases hlookup : lookupSegment c v with
      | error e =>
        -- the fetch from the origin raises, or the write: nothing is counted
        simp only [hlatency, hfault, hlookup] at hserve
        simp [hserve, routeWeight]
      | ok result =>
        -- counted as 200, and received as 200 or 500
        simp only [hlatency, hfault, hlookup, init_eq] at hserve
        have hne : Nat.repr 200 ≠ Nat.repr 500 := by decide
        by_cases hid : Latin1 v.segmentId <;>
          simp [hserve, hid, hne, weight_append, routeWeight_observed, statusWeight_observed,
            routeWeight_resultUpdates, statusWeight_resultUpdates, routeWeight, statusWeight]

/-- A process with the default origin latency, on a platform with a 64-bit clock. -/
def defaultService : ServiceConfig := ⟨.redis, 60, 4096, .fin (3 / 20), 9223372036⟩

/-- A request for the segment "€", which misses, with no fault injected. -/
def euroVisit : Visit where
  segmentId := "€"
  chaos := fun _ => {}
  draw := 1 / 2
  cached := none
  originFetchSeconds := 3 / 20
  elapsed := 3 / 20
  exemplar := none

theorem serve_euroVisit : serve defaultService euroVisit =
    (.error .unicodeEncodeError,
      [.inflightInc, .cacheMissesInc, .originFetchObserve (3 / 20),
        .requestLatencyObserve "/segment" (3 / 20), .httpRequestsInc "/segment" "200",
        .inflightDec]) := by
  have hlatency : applyLatency defaultService.sleepLimit euroVisit.chaos = .ok () := by
    decide +kernel
  have hfault : shouldError euroVisit.draw euroVisit.chaos = false := by decide +kernel
  obtain ⟨data, hdata⟩ :=
    exists_generateSegmentBytes_iff.2 (show SizeFits 4096 "€" by decide +kernel)
  have hlookup : lookupSegment defaultService euroVisit = .ok ⟨data, false, 3 / 20⟩ :=
    segmentOutcome_of_fetch (originFetch_eq_ok.2 ⟨by decide +kernel, hdata⟩) (Or.inr rfl)
  have hid : ¬ Latin1 euroVisit.segmentId := by simp [euroVisit, Latin1]
  have h200 : toString 200 = "200" := by decide
  rw [serve_eq]
  simp only [hlatency, hfault, hlookup, init_eq, if_neg hid, observed, h200]
  rfl

/-- It is counted as 200, and received as 500. -/
theorem id_outside_latin1_counted_as_200 :
    (applyAll MetricUpdate.apply (serve defaultService euroVisit).2 Metrics.init).httpRequests
        "/segment" "200" = 1 ∧
      received defaultService euroVisit = 500 ∧ ¬ CountedOnce defaultService euroVisit := by
  have hreceived : received defaultService euroVisit = 500 := by rw [received, serve_euroVisit]
  refine ⟨by rw [serve_euroVisit]; decide +kernel, hreceived, fun h => ?_⟩
  have h500 := (h Metrics.init).2
  rw [serve_euroVisit, hreceived] at h500
  exact absurd h500 (by decide +kernel)

/-! ## Concurrent requests -/

/-- A request whose exemplar, if it has one, is accepted. -/
abbrev TracedVisit := { v : Visit // v.exemplar = none ∨ v.exemplar = some .accepted }

/-- The updates that such a request makes. -/
def segmentScript (c : ServiceConfig) (v : TracedVisit) : List MetricUpdate := (serve c v).2

/-- Handlers that run on any number of threads. -/
abbrev handlerStep (ω : Type*) (c : ServiceConfig) :=
  threadStep (ω := ω) MetricUpdate.apply (segmentScript c)

/-- A request makes one of four lists of updates. -/
theorem segmentScript_cases (c : ServiceConfig) (v : TracedVisit) :
    segmentScript c v = [.inflightInc, .inflightDec] ∨
      (∃ x, segmentScript c v = [.inflightInc, .requestLatencyObserve "/segment" x,
        .httpRequestsInc "/segment" "500", .inflightDec]) ∨
      (∃ x, segmentScript c v = [.inflightInc, .cacheHitsInc, .requestLatencyObserve "/segment" x,
        .httpRequestsInc "/segment" "200", .inflightDec]) ∨
      (∃ x y, segmentScript c v = [.inflightInc, .cacheMissesInc, .originFetchObserve x,
        .requestLatencyObserve "/segment" y, .httpRequestsInc "/segment" "200",
        .inflightDec]) := by
  obtain ⟨v, hv⟩ := v
  have h200 : toString 200 = "200" := by decide
  have h500 : toString 500 = "500" := by decide
  have hobs : ∀ status, observed v "/segment" status =
      [.requestLatencyObserve "/segment" v.elapsed,
        .httpRequestsInc "/segment" (toString status)] := by
    intro status
    rcases hv with hv | hv <;> simp [observed, hv]
  rw [segmentScript, serve_eq]
  split
  · exact Or.inl rfl
  · exact Or.inr (Or.inl ⟨v.elapsed, by rw [hobs, h500]; rfl⟩)
  · exact Or.inl rfl
  · next result _ _ _ =>
    cases hhit : result.cacheHit with
    | true =>
      exact Or.inr (Or.inr (Or.inl ⟨v.elapsed, by simp [hobs, h200, resultUpdates, hhit]⟩))
    | false =>
      exact Or.inr (Or.inr (Or.inr ⟨result.originFetchSeconds, v.elapsed, by
        simp [hobs, h200, resultUpdates, hhit]⟩))

section Covered

variable (c : ServiceConfig) (v : TracedVisit)

/-- A lookup is counted before its request is, and by one request only. -/
theorem covered_status : Covered
    (fun u => statusWeight "/segment" "200" u - lookupWeight u) (segmentScript c v) := by
  rcases segmentScript_cases c v with h | ⟨x, h⟩ | ⟨x, h⟩ | ⟨x, y, h⟩ <;> rw [h] <;>
    simp [Covered, forall_suffix_cons, statusWeight, lookupWeight]

/-- A lookup whose request is not counted yet is that of a request in flight. -/
theorem covered_lookups : Covered
    (fun u => lookupWeight u - statusWeight "/segment" "200" u - inflightWeight u)
    (segmentScript c v) := by
  rcases segmentScript_cases c v with h | ⟨x, h⟩ | ⟨x, h⟩ | ⟨x, y, h⟩ <;> rw [h] <;>
    simp [Covered, forall_suffix_cons, statusWeight, lookupWeight, inflightWeight]

/-- A miss is counted before its fetch is observed, -/
theorem covered_fetches : Covered
    (fun u => originFetchWeight u - missWeight u) (segmentScript c v) := by
  rcases segmentScript_cases c v with h | ⟨x, h⟩ | ⟨x, h⟩ | ⟨x, y, h⟩ <;> rw [h] <;>
    simp [Covered, forall_suffix_cons, originFetchWeight, missWeight]

/-- and a miss whose fetch is not observed yet is that of a request in flight. -/
theorem covered_misses : Covered
    (fun u => missWeight u - originFetchWeight u - inflightWeight u) (segmentScript c v) := by
  rcases segmentScript_cases c v with h | ⟨x, h⟩ | ⟨x, h⟩ | ⟨x, y, h⟩ <;> rw [h] <;>
    simp [Covered, forall_suffix_cons, originFetchWeight, missWeight, inflightWeight]

/-- The latency of a request is observed before it is counted, -/
theorem covered_requests : Covered
    (fun u => routeWeight "/segment" u - latencyWeight "/segment" u) (segmentScript c v) := by
  rcases segmentScript_cases c v with h | ⟨x, h⟩ | ⟨x, h⟩ | ⟨x, y, h⟩ <;> rw [h] <;>
    simp [Covered, forall_suffix_cons, routeWeight, latencyWeight]

/-- and a latency whose request is not counted yet is that of a request in flight. -/
theorem covered_latencies : Covered
    (fun u => latencyWeight "/segment" u - routeWeight "/segment" u - inflightWeight u)
    (segmentScript c v) := by
  rcases segmentScript_cases c v with h | ⟨x, h⟩ | ⟨x, h⟩ | ⟨x, y, h⟩ <;> rw [h] <;>
    simp [Covered, forall_suffix_cons, routeWeight, latencyWeight, inflightWeight]

theorem weight_inflight : weight inflightWeight (segmentScript c v) = 0 := by
  rcases segmentScript_cases c v with h | ⟨x, h⟩ | ⟨x, h⟩ | ⟨x, y, h⟩ <;> rw [h] <;>
    simp [inflightWeight]

end Covered

/-- **The counters are conserved**, in every interleaving of the updates of concurrent requests:
what one counter is ahead of another is at most the number of requests in flight, and nothing when
no request is being handled. -/
theorem counters_conserved {ω : Type*} [DecidableEq ω] [Fintype ω]
    {s : Pool ω Metrics (List MetricUpdate)}
    (hs : Transition.Reachable (Pool.step (handlerStep ω c)) (Script.start ω _ Metrics.init) s) :
    let m := s.shared
    let ok : ℤ := m.httpRequests "/segment" "200"
    let lookups : ℤ := m.cacheHitsTotal + m.cacheMissesTotal
    let fetches : ℤ := m.originFetchLatencySeconds.length
    let requests : ℤ := m.httpRequestsOf "/segment"
    let latencies : ℤ := m.requestLatencyCount "/segment"
    (ok ≤ lookups ∧ lookups ≤ ok + m.inflightRequests) ∧
      (fetches ≤ m.cacheMissesTotal ∧ m.cacheMissesTotal ≤ fetches + m.inflightRequests) ∧
      (requests ≤ latencies ∧ latencies ≤ requests + m.inflightRequests) ∧
      ((∀ w, s.thread w = []) → m.inflightRequests = 0 ∧ ok = lookups ∧
        fetches = m.cacheMissesTotal ∧ requests = latencies) := by
  intro m ok lookups fetches requests latencies
  have hstatus := additive_httpRequests "/segment" "200"
  have hroute := additive_httpRequestsOf "/segment"
  have hlatency := additive_requestLatencyCount "/segment"
  -- each difference is zero at the start, and stays below
  have h₁ : ok - lookups ≤ 0 := (hstatus.sub additive_lookups).run_le (covered_status c) hs
  have h₂ : lookups - ok - m.inflightRequests ≤ 0 :=
    ((additive_lookups.sub hstatus).sub additive_inflight).run_le (covered_lookups c) hs
  have h₃ : fetches - m.cacheMissesTotal ≤ 0 :=
    (additive_originFetches.sub additive_misses).run_le (covered_fetches c) hs
  have h₄ : m.cacheMissesTotal - fetches - m.inflightRequests ≤ 0 :=
    ((additive_misses.sub additive_originFetches).sub additive_inflight).run_le
      (covered_misses c) hs
  have h₅ : requests - latencies ≤ 0 := (hroute.sub hlatency).run_le (covered_requests c) hs
  have h₆ : latencies - requests - m.inflightRequests ≤ 0 :=
    ((hlatency.sub hroute).sub additive_inflight).run_le (covered_latencies c) hs
  refine ⟨⟨by linarith, by linarith⟩, ⟨by linarith, by linarith⟩, ⟨by linarith, by linarith⟩,
    fun hidle => ?_⟩
  have h₇ : m.inflightRequests = 0 := additive_inflight.run_eq (weight_inflight c) hs hidle
  exact ⟨h₇, by linarith, by linarith, by linarith⟩

/-- A request that fails with an injected fault. -/
def faultVisit : TracedVisit :=
  ⟨{ euroVisit with chaos := fun _ => { errorRate := .fin 1 } }, Or.inl rfl⟩

/-- Two such requests are in flight: the first is about to be counted, the second has still to
observe its latency. -/
theorem counters_conserved_two_faults : ∃ s : Pool (Fin 2) Metrics (List MetricUpdate),
    Transition.run (Pool.step (handlerStep (Fin 2) defaultService)) (Script.start _ _ Metrics.init)
      [(0, some faultVisit), (0, none), (0, none), (1, some faultVisit), (1, none)] = some s ∧
      s.shared.requestLatencyCount "/segment" = 1 ∧ s.shared.inflightRequests = 2 ∧
      (s.shared.requestLatencyCount "/segment" : ℤ) ≤
        s.shared.httpRequestsOf "/segment" + s.shared.inflightRequests := by
  obtain ⟨s, hs, hobs⟩ := Option.map_eq_some_iff.1 (show
    (Transition.run (Pool.step (handlerStep (Fin 2) defaultService))
      (Script.start _ _ Metrics.init)
      [(0, some faultVisit), (0, none), (0, none), (1, some faultVisit), (1, none)]).map
      (fun s => (s.shared.requestLatencyCount "/segment", s.shared.inflightRequests)) =
        some (1, 2) by decide +kernel)
  obtain ⟨hlatency, hflight⟩ := Prod.mk.inj hobs
  exact ⟨s, hs, hlatency, hflight, (counters_conserved defaultService ⟨_, hs⟩).2.2.1.2⟩

end EdgeCache.Service
