import EdgeCache.Service.Answers

/-!
# The counters of the whole service

The metrics of a replica are those of concurrent scripts: each request for a segment makes the
updates that `serve` gives for some visit, and each health check two more (`refines_traffic`). Which
visit it is turns out only as the request goes on, so the simulation runs backwards, from the
updates that a handler may have yet to make (`Handling.Leaves`).

So the counters of a replica are conserved in every run of the service, with all its routes
(`service_counters`). This takes a metrics library that does not count an observation and then
refuse its exemplar. The exemplars of the service have 40 characters, far from the 128 that a
library may refuse.
-/

namespace EdgeCache.Service

open Cache Script Transition

/-! ## The scripts -/

/-- A request, as far as it updates metrics. -/
inductive Traffic
  | segment (v : TracedVisit)
  | health (elapsed : ℚ)

/-- The updates of a health check. -/
def healthScript (elapsed : ℚ) : List MetricUpdate :=
  [.requestLatencyObserve "/healthz" elapsed, .httpRequestsInc "/healthz" (toString 200)]

/-- The updates that a request makes. -/
def trafficScript (c : ServiceConfig) : Traffic → List MetricUpdate
  | .segment v => segmentScript c v
  | .health elapsed => healthScript elapsed

/-- Requests on any number of threads. -/
abbrev trafficStep (ω : Type*) (c : ServiceConfig) :=
  threadStep (ω := ω) MetricUpdate.apply (trafficScript c)

/-- The updates that a call of `_observe` and what follows make. -/
def Observation.rest : Observation → List MetricUpdate
  | .health _ => []
  | _ => [.inflightDec]

def Observation.updates (o : Observation) (elapsed : ℚ) : List MetricUpdate :=
  .requestLatencyObserve o.route elapsed :: .httpRequestsInc o.route (toString o.status) :: o.rest

/-- The segment can be fetched from the origin. -/
def ServiceConfig.Fetches (c : ServiceConfig) (id : String) : Prop :=
  ∃ data, originFetch c.segmentSizeBytes c.sleepLimit c.originLatencySeconds id = .ok data

/-- The updates of a request for a segment after the first one. -/
inductive SegmentRest (c : ServiceConfig) : List MetricUpdate → Prop
  | raised : SegmentRest c [.inflightDec]
  | fault (id : String) (x : ℚ) : SegmentRest c ((Observation.fault id).updates x)
  | hit (id : String) (result : SegmentResult) (x : ℚ) :
      SegmentRest c (.cacheHitsInc :: (Observation.found id result).updates x)
  | miss (id : String) (result : SegmentResult) (f x : ℚ) : c.Fetches id →
      SegmentRest c
        (.cacheMissesInc :: .originFetchObserve f :: (Observation.found id result).updates x)

/-- A request that injects `latency` and faults with probability `rate`, and bypasses the cache
unless it finds something there. -/
def visitWith (id : String) (latency rate : PyFloat) (cached : Option Bytes) (f x : ℚ) :
    TracedVisit where
  val :=
    { segmentId := id
      chaos := fun _ =>
        { latencySeconds := latency, errorRate := rate, cacheBypass := cached.isNone }
      draw := 0
      cached := cached
      originFetchSeconds := f
      elapsed := x
      exemplar := none }
  property := Or.inl rfl

/-- Each of these lists is what some visit leaves to be done. -/
theorem exists_segmentScript {c : ServiceConfig} {us : List MetricUpdate} (h : SegmentRest c us) :
    ∃ v, segmentScript c v = .inflightInc :: us := by
  have hno : PyFloat.lt (.fin 0) (.fin 0) = false := by decide +kernel
  have hzero : PyFloat.le (.fin 0) (.fin 0) = true := by decide +kernel
  have hone : PyFloat.le (.fin 1) (.fin 0) = false := by decide +kernel
  have hdraw : PyFloat.lt (.fin 0) (.fin 1) = true := by decide +kernel
  cases h with
  | raised =>
    refine ⟨visitWith "" .posInf (.fin 0) none 0 0, ?_⟩
    rw [segmentScript, serve_eq]
    rfl
  | fault id x =>
    refine ⟨visitWith id (.fin 0) (.fin 1) none 0 x, ?_⟩
    rw [segmentScript, serve_eq]
    simp [visitWith, applyLatency, shouldError, hno, hone, hdraw, observed, Observation.updates,
      Observation.route, Observation.status, Observation.rest]
  | hit id result x =>
    refine ⟨visitWith id (.fin 0) (.fin 0) (some []) 0 x, ?_⟩
    rw [segmentScript, serve_eq]
    simp [visitWith, applyLatency, shouldError, hno, hzero, lookupSegment, segmentOutcome, observed,
      resultUpdates, Observation.updates, Observation.route, Observation.status, Observation.rest]
  | miss id result f x hfetch =>
    obtain ⟨data, hdata⟩ := hfetch
    have hlookup : lookupSegment c (visitWith id (.fin 0) (.fin 0) none f x).1 = .ok ⟨data, false, f⟩ :=
      segmentOutcome_of_fetch hdata (Or.inl rfl)
    refine ⟨visitWith id (.fin 0) (.fin 0) none f x, ?_⟩
    rw [segmentScript, serve_eq, hlookup]
    simp [visitWith, applyLatency, shouldError, hno, hzero, observed, resultUpdates,
      Observation.updates, Observation.route, Observation.status, Observation.rest]

/-! ## The simulation -/

/-- The handler may have yet to make these updates. -/
def Handling.Leaves (c : ServiceConfig) : Handling → List MetricUpdate → Prop
  | .segment _, us => ∃ vs, us = .inflightInc :: vs ∧ SegmentRest c vs
  | .chaos _ _, us => SegmentRest c us
  | .cache _ _, us => SegmentRest c us
  | .originFetch id result, us =>
    c.Fetches id ∧ ∃ x, us =
      .originFetchObserve result.originFetchSeconds :: (Observation.found id result).updates x
  | .observe o, us => ∃ x, us = o.updates x
  | .observeAgain o x, us => us = o.updates x
  | .countRequest o, us => us = .httpRequestsInc o.route (toString o.status) :: o.rest
  | .finish _ _, us => us = [.inflightDec]
  | .healthz, us => ∃ x, us = healthScript x
  | _, us => us = []

variable {ω ρ : Type*}

/-- No exemplar with few enough characters is refused after its observation has been counted. -/
def Rollout.AcceptsExemplars (D : Rollout ω ρ) : Prop :=
  ∀ r labels, runes labels ≤ 128 → D.exemplarReply r labels ≠ .valueError true

/-- A thread of the service, and its part in the traffic of replica `r`. -/
def Handles (D : Rollout ω ρ) (r : ρ) (w : ω) (h : Handling) (us : List MetricUpdate) : Prop :=
  (D.replica w = r → h.Leaves (ServiceConfig.ofReplica D.toDeployment r) us) ∧
    (D.replica w ≠ r → us = [])

variable [DecidableEq ρ] {D : Rollout ω ρ} {r : ρ} {w : ω} {M M' : Shared ρ} {h h' : Handling}

/-- A handler updates the metrics of its own replica only. -/
theorem metrics_serverEffect {env : Env} (heff : ServerEffect D w env M h M' h') {r : ρ}
    (hr : r ≠ D.replica w) : M'.metrics r = M.metrics r := by
  cases heff with
  | inflightInc | returned | originFetch | observe | refusedLate | observeAgain | countRequest |
    finish => simp [hr]
  | observeExemplar => simp [Shared.observe, hr]
  | chaosRead | call | cache | raised | refused | healthz | notFound | unprocessable | readChaos |
    beginUpdate | update | updated | copy | answer | flush => rfl

/-- What a step of a handler does to the metrics of its replica, and to what it leaves to be
done. -/
theorem leaves_serverEffect (hlib : D.AcceptsExemplars) {env : Env} {c : ServiceConfig}
    (hfetch : ∀ id result, h = .originFetch id result → c.Fetches id)
    (heff : ServerEffect D w env M h M' h') {us : List MetricUpdate} (hus : h'.Leaves c us) :
    (M'.metrics = M.metrics ∧ h.Leaves c us) ∨
      ∃ u, M'.metrics = Function.update M.metrics (D.replica w) (u.apply (M.metrics (D.replica w))) ∧
        h.Leaves c (u :: us) := by
  cases heff with
  | inflightInc => exact Or.inr ⟨_, rfl, us, rfl, hus⟩
  | chaosRead id read hne =>
    refine Or.inl ⟨rfl, ?_⟩
    cases read with
    | latencyTest | rateTest | bypass => exact hus
    | latencySleep =>
      simp only [afterChaosRead] at hus
      split at hus
      · obtain rfl : us = [.inflightDec] := hus
        exact .raised
      · exact hus
    | rateDraw =>
      simp only [afterChaosRead] at hus
      split_ifs at hus
      · obtain ⟨x, rfl⟩ : ∃ x, us = _ := hus
        exact .fault id x
      · exact hus
  | call | cache => exact Or.inl ⟨rfl, hus⟩
  | raised =>
    obtain rfl : us = [.inflightDec] := hus
    exact Or.inl ⟨rfl, .raised⟩
  | returned id id' result =>
    refine Or.inr ⟨_, rfl, ?_⟩
    unfold afterLookup at hus
    unfold lookupUpdate
    split_ifs at hus with hhit
    · obtain ⟨x, rfl⟩ : ∃ x, us = _ := hus
      rw [if_pos hhit]
      exact .hit id result x
    · obtain ⟨hfetches, x, rfl⟩ := hus
      rw [if_neg hhit]
      exact .miss id result _ x hfetches
  | originFetch id result =>
    obtain ⟨x, rfl⟩ : ∃ x, us = _ := hus
    exact Or.inr ⟨_, rfl, hfetch id result rfl, x, rfl⟩
  | observe o | observeExemplar o =>
    obtain rfl : us = _ := hus
    exact Or.inr ⟨_, rfl, env.elapsed, rfl⟩
  | refused o => exact Or.inl ⟨rfl, env.elapsed, hus⟩
  | refusedLate o traceId hid hreply =>
    have hrunes : runes (exemplarLabels traceId) ≤ 128 := by
      rw [runes_exemplarLabels hid]
      decide
    exact absurd hreply (hlib _ _ hrunes)
  | observeAgain o elapsed =>
    obtain rfl : us = _ := hus
    exact Or.inr ⟨_, rfl, rfl⟩
  | countRequest o =>
    obtain rfl : us = o.rest := by cases o <;> exact hus
    exact Or.inr ⟨_, rfl, rfl⟩
  | finish id response =>
    obtain rfl : us = [] := hus
    exact Or.inr ⟨_, rfl, rfl⟩
  | healthz =>
    obtain ⟨x, rfl⟩ : ∃ x, us = _ := hus
    exact Or.inl ⟨rfl, x, rfl⟩
  | notFound | unprocessable | readChaos | beginUpdate | update | updated | copy | answer | flush =>
    exact Or.inl ⟨rfl, hus⟩

/-- One step of the simulation, backwards. -/
theorem handles_serverStep (hlib : D.AcceptsExemplars) {a : ServerAct} {us : List MetricUpdate}
    (hfetch : ∀ id result, h = .originFetch id result →
      (ServiceConfig.ofReplica D.toDeployment (D.replica w)).Fetches id)
    (hstep : serverStep D w M h a = some (M', h')) (hus : Handles D r w h' us) :
    ∃ vs, Reachable (fun q a => trafficStep ω (ServiceConfig.ofReplica D.toDeployment r) w q.1 q.2 a)
        (M.metrics r, vs) (M'.metrics r, us) ∧ Handles D r w h vs := by
  have hstutter : M'.metrics r = M.metrics r → Handles D r w h us →
      ∃ vs, Reachable (fun q a => trafficStep ω (ServiceConfig.ofReplica D.toDeployment r) w q.1 q.2 a)
        (M.metrics r, vs) (M'.metrics r, us) ∧ Handles D r w h vs := fun hM h => by
    rw [hM]
    exact ⟨us, Reachable.refl _, h⟩
  by_cases hw : D.replica w = r
  · subst hw
    obtain hus := hus.1 rfl
    have hself : ∀ {vs}, h.Leaves (ServiceConfig.ofReplica D.toDeployment (D.replica w)) vs →
        Handles D (D.replica w) w h vs := fun h => ⟨fun _ => h, fun hne => absurd rfl hne⟩
    rcases serverStep_cases hstep with ⟨last, request, -, rfl, rfl, rfl⟩ | ⟨env, -, heff⟩
    · -- the visit whose updates these will have been
      have htake : ∀ i, trafficScript (ServiceConfig.ofReplica D.toDeployment (D.replica w)) i = us →
          ∃ vs, Reachable
            (fun q a => trafficStep ω (ServiceConfig.ofReplica D.toDeployment (D.replica w)) w q.1 q.2 a)
            (M'.metrics (D.replica w), vs) (M'.metrics (D.replica w), us) ∧
            Handles D (D.replica w) w (.idle last) vs := fun i hi =>
        ⟨[], Reachable.single (e := some i) (by rw [← hi]; rfl), hself rfl⟩
      cases request with
      | segment id =>
        obtain ⟨vs, rfl, hrest⟩ := hus
        obtain ⟨v, hv⟩ := exists_segmentScript hrest
        exact htake (.segment v) hv
      | healthz =>
        obtain ⟨x, rfl⟩ : ∃ x, us = _ := hus
        exact htake (.health x) rfl
      | admin | invalid => exact hstutter rfl (hself hus)
    · rcases leaves_serverEffect hlib hfetch heff hus with ⟨hM, hleaves⟩ | ⟨u, hM, hleaves⟩
      · exact hstutter (congrFun hM _) (hself hleaves)
      · refine ⟨u :: us, Reachable.single (e := none) ?_, hself hleaves⟩
        rw [hM, Function.update_self]
        rfl
  · -- a thread of another replica
    obtain rfl := hus.2 hw
    have hmetrics : M'.metrics r = M.metrics r := by
      rcases serverStep_cases hstep with ⟨last, request, -, rfl, rfl, rfl⟩ | ⟨env, -, heff⟩
      · rfl
      · exact metrics_serverEffect heff (Ne.symm hw)
    exact hstutter hmetrics ⟨fun heq => absurd heq hw, fun _ => rfl⟩

variable [DecidableEq ω]

/-- A fetch that is about to be observed was made. -/
theorem fetches_of_originFetch {t : ρ → ℚ} {s : Server ω ρ}
    (hs : Reachable (Pool.step (serverStep D)) (boot D t) s) {id : String} {result : SegmentResult}
    (hw : s.thread w = .originFetch id result) :
    (ServiceConfig.ofReplica D.toDeployment (D.replica w)).Fetches id := by
  obtain ⟨q, hq, -, hruns⟩ := refines_fleet hs
  have hserves := hruns w
  rw [hw] at hserves
  obtain ⟨hlast, hmiss⟩ := hserves
  obtain ⟨bypass, cached, elapsed, hout⟩ := outcome_run hq hlast
  exact ⟨result.data, originFetch_of_segmentOutcome hout.symm hmiss⟩

/-- There is something that a handler may have yet to do. -/
theorem exists_handles {t : ρ → ℚ} {s : Server ω ρ}
    (hs : Reachable (Pool.step (serverStep D)) (boot D t) s) (r : ρ) (w : ω) :
    ∃ us, Handles D r w (s.thread w) us := by
  by_cases hw : D.replica w = r
  · subst hw
    have hleaves : ∃ us, (s.thread w).Leaves
        (ServiceConfig.ofReplica D.toDeployment (D.replica w)) us := by
      cases hthread : s.thread w with
      | segment => exact ⟨_, _, rfl, .raised⟩
      | chaos | cache => exact ⟨_, .raised⟩
      | originFetch id result => exact ⟨_, fetches_of_originFetch hs hthread, 0, rfl⟩
      | observe | healthz => exact ⟨_, 0, rfl⟩
      | idle | observeAgain | countRequest | finish | admin | invalid | updating | asdict =>
        exact ⟨_, rfl⟩
    obtain ⟨us, hus⟩ := hleaves
    exact ⟨us, fun _ => hus, fun hne => absurd rfl hne⟩
  · exact ⟨[], fun heq => absurd heq hw, fun _ => rfl⟩

/-- **The metrics of a replica are those of concurrent scripts**, which its threads will have
run. -/
theorem refines_traffic (hlib : D.AcceptsExemplars) {t : ρ → ℚ} {s : Server ω ρ}
    (hs : Reachable (Pool.step (serverStep D)) (boot D t) s) (r : ρ) :
    ∃ q, Reachable (Pool.step (trafficStep ω (ServiceConfig.ofReplica D.toDeployment r)))
        (Script.start ω _ Metrics.init) q ∧
      q.shared = s.shared.metrics r ∧ ∀ w, Handles D r w (s.thread w) (q.thread w) := by
  choose us hus using exists_handles hs r
  have hend : Pool.Related (fun M m => m = M.metrics r) (Handles D r) s
      ⟨s.shared.metrics r, us⟩ := ⟨rfl, hus⟩
  obtain ⟨q, hq, hshared, hthread⟩ : ∃ q,
      Reachable (Pool.step (trafficStep ω (ServiceConfig.ofReplica D.toDeployment r))) q
        ⟨s.shared.metrics r, us⟩ ∧
      Pool.Related (fun M m => m = M.metrics r) (Handles D r) (boot D t) q :=
    Pool.Related.simulates_back (I := fun s => Reachable (Pool.step (serverStep D)) (boot D t) s)
      (fun _ _ _ hs he => hs.concat he)
      (fun {s w _ _ _ _ _} hs he hm hus => by
        subst hm
        obtain ⟨vs, hreach, hvs⟩ := handles_serverStep hlib
          (fun id result hw => fetches_of_originFetch hs hw) he hus
        exact ⟨_, vs, hreach, rfl, hvs⟩) hs (Reachable.refl _) hend
  -- at the start, no thread has anything to do
  have hstart : q = Script.start ω _ Metrics.init := by
    obtain ⟨m, th⟩ := q
    obtain rfl : m = Metrics.init := hshared
    refine congrArg (Pool.mk _) (funext fun w => ?_)
    by_cases hw : D.replica w = r
    · exact (hthread w).1 hw
    · exact (hthread w).2 hw
  exact ⟨_, hstart ▸ hq, rfl, hus⟩

/-! ## The counters -/

/-- The thread is in a request for a segment, which it has counted as being in flight. -/
def Handling.inFlight : Handling → Bool
  | .chaos _ _ => true
  | .cache _ _ => true
  | .originFetch _ _ => true
  | .observe o => o.rest ≠ []
  | .observeAgain o _ => o.rest ≠ []
  | .countRequest o => o.rest ≠ []
  | .finish _ _ => true
  | _ => false

theorem weight_updates (o : Observation) (x : ℚ) :
    weight inflightWeight (o.updates x) = if o.rest ≠ [] then -1 else 0 := by
  cases o <;> simp [Observation.updates, Observation.rest, inflightWeight]

theorem weight_segmentRest {c : ServiceConfig} {us : List MetricUpdate} (h : SegmentRest c us) :
    weight inflightWeight us = -1 := by
  cases h <;> simp [weight_updates, Observation.rest, inflightWeight]

/-- What a handler has yet to give back of `inflight_requests`. -/
theorem weight_leaves {c : ServiceConfig} {h : Handling} {us : List MetricUpdate}
    (hus : h.Leaves c us) : weight inflightWeight us = if h.inFlight then -1 else 0 := by
  cases h with
  | segment =>
    obtain ⟨vs, rfl, hrest⟩ := hus
    simp [weight_segmentRest hrest, inflightWeight, Handling.inFlight]
  | chaos | cache => simpa [Handling.inFlight] using weight_segmentRest hus
  | originFetch =>
    obtain ⟨-, x, rfl⟩ := hus
    simp [weight_updates, Observation.rest, inflightWeight, Handling.inFlight]
  | observe o =>
    obtain ⟨x, rfl⟩ := hus
    simp [weight_updates, Handling.inFlight]
  | observeAgain o x =>
    obtain rfl : us = _ := hus
    simp [weight_updates, Handling.inFlight]
  | countRequest o =>
    obtain rfl : us = _ := hus
    cases o <;> simp [Observation.rest, inflightWeight, Handling.inFlight]
  | healthz =>
    obtain ⟨x, rfl⟩ := hus
    simp [healthScript, inflightWeight, Handling.inFlight]
  | finish | idle | admin | invalid | updating | asdict =>
    obtain rfl : us = _ := hus
    simp [inflightWeight, Handling.inFlight]

/-- The health checks do not change what the requests for segments are covered for. -/
theorem covered_traffic {f : MetricUpdate → ℤ} {c : ServiceConfig}
    (hsegment : ∀ v, Covered f (segmentScript c v))
    (hhealth : ∀ x, ∀ u ∈ healthScript x, f u = 0) (i : Traffic) : Covered f (trafficScript c i) := by
  cases i with
  | segment v => exact hsegment v
  | health x =>
    have hzero : ∀ us, us <:+ healthScript x → weight f us = 0 := fun us hus =>
      List.sum_eq_zero fun y hy => by
        obtain ⟨u, hu, rfl⟩ := List.mem_map.1 hy
        exact hhealth x u (hus.subset hu)
    exact ⟨hzero _ (List.suffix_refl _), fun us hus => (hzero us hus).ge⟩

/-- A request is counted as 200 or as 500. -/
theorem covered_statuses (c : ServiceConfig) (v : TracedVisit) :
    Covered (fun u => routeWeight "/segment" u - statusWeight "/segment" "200" u -
      statusWeight "/segment" "500" u) (segmentScript c v) ∧
    Covered (fun u => statusWeight "/segment" "200" u -
      (routeWeight "/segment" u - statusWeight "/segment" "500" u)) (segmentScript c v) := by
  rcases segmentScript_cases c v with h | ⟨x, h⟩ | ⟨x, h⟩ | ⟨x, y, h⟩ <;> rw [h] <;>
    simp [Covered, forall_suffix_cons, routeWeight, statusWeight]

omit [DecidableEq ω] in
/-- What the threads have yet to give back of `inflight_requests` of replica `r`. -/
theorem tally_handles [Fintype ω] {th : ω → Handling} {us : ω → List MetricUpdate}
    (h : ∀ w, Handles D r w (th w) (us w)) : Pool.tally (weight inflightWeight) us =
      -(Finset.univ.filter fun w => D.replica w = r ∧ (th w).inFlight = true).card := by
  have hweight : ∀ w, weight inflightWeight (us w) =
      if D.replica w = r ∧ (th w).inFlight = true then -1 else 0 := fun w => by
    by_cases hw : D.replica w = r
    · simp [weight_leaves ((h w).1 hw), hw]
    · simp [(h w).2 hw, hw]
  simp only [Pool.tally, hweight]
  rw [Finset.sum_ite, Finset.sum_const_zero, add_zero, Finset.sum_const, nsmul_eq_mul, mul_neg_one]

/-- **The counters of a replica are conserved**, in every run of the service: `inflight_requests` is
the number of its threads that are in a request for a segment; each such request is counted as 200
or as 500; and of two counts that a request makes, one is ahead of the other by no more than the
requests in flight. -/
theorem service_counters [Fintype ω] (hlib : D.AcceptsExemplars) {t : ρ → ℚ} {s : Server ω ρ}
    (hs : Reachable (Pool.step (serverStep D)) (boot D t) s) (r : ρ) :
    let m := s.shared.metrics r
    let ok : ℤ := m.httpRequests "/segment" "200"
    let failed : ℤ := m.httpRequests "/segment" "500"
    let requests : ℤ := m.httpRequestsOf "/segment"
    let lookups : ℤ := m.cacheHitsTotal + m.cacheMissesTotal
    let fetches : ℤ := m.originFetchLatencySeconds.length
    let latencies : ℤ := m.requestLatencyCount "/segment"
    m.inflightRequests =
        (Finset.univ.filter fun w => D.replica w = r ∧ (s.thread w).inFlight = true).card ∧
      requests = ok + failed ∧
      (ok ≤ lookups ∧ lookups ≤ ok + m.inflightRequests) ∧
      (fetches ≤ m.cacheMissesTotal ∧ m.cacheMissesTotal ≤ fetches + m.inflightRequests) ∧
      (requests ≤ latencies ∧ latencies ≤ requests + m.inflightRequests) := by
  intro m ok failed requests lookups fetches latencies
  obtain ⟨q, hq, hshared, hhandles⟩ := refines_traffic hlib hs r
  generalize hc : ServiceConfig.ofReplica D.toDeployment r = c at hq
  have hok := additive_httpRequests "/segment" "200"
  have hfailed := additive_httpRequests "/segment" "500"
  have hroute := additive_httpRequestsOf "/segment"
  have hlatency := additive_requestLatencyCount "/segment"
  -- a quantity that is zero at the start, and that no request leaves above zero on its way
  have key : ∀ {Φ : Metrics → ℤ} {f : MetricUpdate → ℤ}, Additive MetricUpdate.apply Φ f →
      (∀ v, Covered f (segmentScript c v)) → (∀ x, ∀ u ∈ healthScript x, f u = 0) →
      Φ Metrics.init = 0 → Φ m ≤ 0 := fun hΦ hsegment hhealth hzero => by
    have := hΦ.run_le (covered_traffic hsegment hhealth) hq
    rwa [hshared, hzero] at this
  have h₁ := key (hok.sub additive_lookups) (covered_status c)
    (by simp [healthScript, statusWeight, lookupWeight]) rfl
  have h₂ := key ((additive_lookups.sub hok).sub additive_inflight) (covered_lookups c)
    (by simp [healthScript, statusWeight, lookupWeight, inflightWeight]) rfl
  have h₃ := key (additive_originFetches.sub additive_misses) (covered_fetches c)
    (by simp [healthScript, originFetchWeight, missWeight]) rfl
  have h₄ := key ((additive_misses.sub additive_originFetches).sub additive_inflight)
    (covered_misses c) (by simp [healthScript, originFetchWeight, missWeight, inflightWeight]) rfl
  have h₅ := key (hroute.sub hlatency) (covered_requests c)
    (by simp [healthScript, routeWeight, latencyWeight]) rfl
  have h₆ := key ((hlatency.sub hroute).sub additive_inflight) (covered_latencies c)
    (by simp [healthScript, routeWeight, latencyWeight, inflightWeight]) rfl
  have h₇ := key ((hroute.sub hok).sub hfailed) (fun v => (covered_statuses c v).1)
    (by simp [healthScript, routeWeight, statusWeight]) rfl
  have h₈ := key (hok.sub (hroute.sub hfailed)) (fun v => (covered_statuses c v).2)
    (by simp [healthScript, routeWeight, statusWeight]) rfl
  -- what the threads have yet to give back
  have hzero : ∀ i, weight inflightWeight (trafficScript c i) = 0 := fun i => by
    cases i with
    | segment v => exact weight_inflight c v
    | health x => simp [trafficScript, healthScript, inflightWeight]
  have hflight := additive_inflight.conserved hzero hq
  rw [hshared, tally_handles hhandles] at hflight
  have h₉ : m.inflightRequests - _ = 0 := hflight
  exact ⟨by linarith, by linarith, ⟨by linarith, by linarith⟩, ⟨by linarith, by linarith⟩,
    ⟨by linarith, by linarith⟩⟩

/-- A request whose miss has been counted, and nothing else of it. -/
def missCounted : List (Bool × ServerAct) := handle true (.segment "ab") 19

/-- The miss is ahead of the count of requests by one, the request in flight. -/
theorem service_counters_miss : ∃ s, Reachable (Pool.step (serverStep lab)) (boot lab fun _ => 0) s ∧
    (s.shared.metrics true).cacheMissesTotal = 1 ∧ (s.shared.metrics true).httpRequestsTotal = [] ∧
      (Finset.univ.filter fun w => lab.replica w = true ∧ (s.thread w).inFlight = true).card = 1 := by
  obtain ⟨s, hs, hobs⟩ := Option.map_eq_some_iff.1 (show
    (run (Pool.step (serverStep lab)) (boot lab fun _ => 0) missCounted).map (fun s =>
      ((s.shared.metrics true).cacheMissesTotal, (s.shared.metrics true).httpRequestsTotal,
        (s.shared.metrics true).inflightRequests)) = some (1, [], 1) by decide +kernel)
  obtain ⟨hmisses, hrest⟩ := Prod.mk.inj hobs
  obtain ⟨hrequests, hflight⟩ := Prod.mk.inj hrest
  have hlib : lab.AcceptsExemplars := fun _ _ _ => by simp [lab]
  have hcount := (service_counters hlib ⟨missCounted, hs⟩ true).1
  rw [hflight] at hcount
  exact ⟨s, ⟨missCounted, hs⟩, hmisses, hrequests, by exact_mod_cast hcount.symm⟩

end EdgeCache.Service
