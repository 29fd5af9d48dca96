import EdgeCache.Service.ChaosAdmin
import EdgeCache.Service.Handler
import EdgeCache.Service.Tracing

/-!
# The whole service

All replicas with all their routes: any number of threads, each in the process of one of the
replicas, handle `GET /segment/{id}`, `GET /healthz`, `GET /admin/chaos` and `POST /admin/chaos`
again and again. The threads of a replica share its chaos state, its metrics and its cache, and all
of them share Redis.

`serverStep` is one atomic step of a thread: it takes up a request, or makes the next access of its
handler to what is shared. So the handlers of `app/main.py` interleave with each other, with the
chaos updates of `EdgeCache.Service.ChaosUpdates`, and inside of `get_segment` with the cache of
`EdgeCache.Cache.Fleet`. `serverStep_cases` says all that a step can do.
-/

namespace EdgeCache.Service

open Cache PartialUpdate Transition

/-- The deployment of the caches, and what else the handlers of a replica depend on. -/
structure Rollout (ω ρ : Type*) extends Deployment ω ρ where
  /-- The value of `CHAOS_ENABLED`. -/
  chaosVar : ρ → Option String
  /-- `setup_tracing` has configured an exporter. -/
  tracing : ρ → Bool
  /-- What the metrics library does with the labels of an exemplar. -/
  exemplarReply : ρ → List (String × String) → ExemplarReply

/-- The upper bounds of the buckets of `request_latency_seconds`. -/
def requestLatencyBuckets : List ℚ :=
  [1 / 200, 1 / 100, 1 / 40, 1 / 20, 1 / 10, 1 / 5, 2 / 5, 4 / 5, 8 / 5, 16 / 5]

/-- The bucket that shows the exemplar of an observation. -/
def bucketOf (seconds : ℚ) : ℕ := requestLatencyBuckets.countP fun bound => bound < seconds

/-- Redis, and of each replica: its cache, the chaos module, the metrics, and the exemplars of
`request_latency_seconds`, for each route and bucket. -/
structure Shared (ρ : Type*) where
  world : World ρ
  chaos : ρ → ChaosModule
  metrics : ρ → Metrics
  exemplars : ρ → String × ℕ → Option (List (String × String))

/-- What `Cache.status` reports. -/
structure CacheStatus where
  backend : Backend
  redisUp : Bool
  deriving DecidableEq

/-- `Cache.status`. -/
def cacheStatus (c : Replica) (p : Proc) : CacheStatus :=
  match c.backend with
  | .memory => ⟨.memory, false⟩
  | .redis => ⟨.redis, p.lastRedisOk⟩

/-! ## Requests -/

/-- The requests to `/admin/chaos`. -/
inductive AdminCall
  | read
  | set (body : ChaosUpdate)
  deriving DecidableEq

inductive Request
  | segment (id : String)
  | healthz
  | admin (call : AdminCall)
  /-- `POST /admin/chaos` with a body that is no `ChaosUpdate`. -/
  | invalid
  deriving DecidableEq

/-- What a request is answered, or the exception that escapes its handler. -/
inductive Answer
  | segment (id : String) (response : Except PyError Response)
  | healthz (status : CacheStatus)
  | admin (response : Except PyError AdminResponse)
  /-- 422, before the handler of the request runs. -/
  | unprocessable
  deriving DecidableEq

/-- The response of `get_segment` to a segment that has been found. -/
def segmentResponse (id : String) (result : SegmentResult) : Except PyError Response :=
  Response.init result.data "application/octet-stream"
    [("X-Cache", if result.cacheHit then "HIT" else "MISS"), ("X-Segment-Id", id)]

/-- A handler at one of its calls of `_observe`. -/
inductive Observation
  | fault (id : String)
  | found (id : String) (result : SegmentResult)
  | health (status : CacheStatus)

/-- The labels with which it is counted. -/
def Observation.route : Observation → String
  | .health _ => "/healthz"
  | _ => "/segment"

def Observation.status : Observation → ℕ
  | .fault _ => 500
  | _ => 200

/-- Where a thread is. -/
inductive Handling
  /-- In no request; this was the answer to its last one. -/
  | idle (last : Option Answer)
  | segment (id : String)
  /-- About to read the chaos state. -/
  | chaos (id : String) (read : ChaosRead)
  /-- In `cache.get_segment`. -/
  | cache (id : String) (t : Worker)
  | originFetch (id : String) (result : SegmentResult)
  /-- In `_observe`. -/
  | observe (o : Observation)
  /-- In its exception handler. -/
  | observeAgain (o : Observation) (elapsed : ℚ)
  | countRequest (o : Observation)
  /-- In the `finally` block of `get_segment`. -/
  | finish (id : String) (response : Except PyError Response)
  | healthz
  | admin (call : AdminCall)
  | invalid
  /-- In `chaos.update` or `chaos.reset`. -/
  | updating (body : ChaosUpdate) (us : List (Op ChaosField.Value))
  /-- In `asdict(state)`, which has read `state` and has yet to read `rest`. -/
  | asdict (call : AdminCall) (state : ChaosState) (rest : List ChaosField)

/-- The answer to the last request, of a thread that is in none. -/
def Handling.answer : Handling → Option Answer
  | .idle last => last
  | _ => none

theorem Handling.answer_eq_some {h : Handling} {a : Answer} :
    h.answer = some a ↔ h = .idle (some a) := by
  cases h <;> simp [Handling.answer]

/-- What the environment gives to a step: a reading of the replica's clock, how a Redis call goes,
the durations that are measured, the value of `random.random()`, and the span of the request. -/
structure Env where
  now : ℚ
  reply : Reply
  fetchSeconds : ℚ
  elapsed : ℚ
  draw : ℚ
  span : SpanContext

/-- A thread takes up a request, or goes on with the one it is in. -/
inductive ServerAct
  | take (request : Request)
  | go (env : Env)

/-- The step goes on with a request. -/
def ServerAct.isGo : ServerAct → Bool
  | .go _ => true
  | .take _ => false

/-! ## Steps -/

/-- Where the handler of a request is at first. -/
def Request.start : Request → Handling
  | .segment id => .segment id
  | .healthz => .healthz
  | .admin call => .admin call
  | .invalid => .invalid

/-- `apply_latency` and `should_error` after a read of the chaos state. -/
def afterChaosRead (sleepLimit draw : ℚ) (state : ChaosState) (id : String) : ChaosRead → Handling
  | .latencyTest =>
    .chaos id (if PyFloat.lt (.fin 0) state.latencySeconds then .latencySleep else .rateTest)
  | .latencySleep =>
    match PyFloat.timeSleep sleepLimit state.latencySeconds with
    | .error e => .finish id (.error e)
    | .ok () => .chaos id .rateTest
  | .rateTest => .chaos id (if PyFloat.le state.errorRate (.fin 0) then .bypass else .rateDraw)
  | .rateDraw =>
    if PyFloat.lt (.fin draw) state.errorRate then .observe (.fault id) else .chaos id .bypass
  | .bypass => .chaos id .bypass

/-- The counter for the outcome of the lookup. -/
def lookupUpdate (result : SegmentResult) : MetricUpdate :=
  if result.cacheHit then .cacheHitsInc else .cacheMissesInc

/-- `get_segment` after the lookup has been counted. -/
def afterLookup (id : String) (result : SegmentResult) : Handling :=
  if result.cacheHit then .observe (.found id result) else .originFetch id result

/-- The handler after `_observe`. -/
def Observation.after : Observation → Handling
  | .fault id => .finish id (.ok injectedFault)
  | .found id result => .finish id (segmentResponse id result)
  | .health status => .idle (some (.healthz status))

/-- The call of `app/chaos.py` that `set_chaos` makes. -/
def ChaosUpdate.call (body : ChaosUpdate) : ChaosCall :=
  if body.reset = some true then .reset else .update body.args

/-- `set_chaos` flushes the cache. -/
def ChaosUpdate.flushes (body : ChaosUpdate) : Bool :=
  body.reset ≠ some true && body.flushCache = some true

/-- The actions that a request is answered. -/
def AdminCall.actions : AdminCall → List String
  | .read => []
  | .set body =>
    if body.reset = some true then ["reset"] else if body.flushes then ["flushed_cache"] else []

/-- One attribute of a state, as `asdict` copies it. -/
def ChaosState.copy (state : ChaosState) (m : ChaosModule) : ChaosField → ChaosState
  | .latencySeconds => { state with latencySeconds := m.value .latencySeconds }
  | .errorRate => { state with errorRate := m.value .errorRate }
  | .cacheBypass => { state with cacheBypass := m.value .cacheBypass }

variable {ω ρ : Type*} [DecidableEq ρ]

/-- One update of the metrics of replica `r`. -/
def Shared.metric (M : Shared ρ) (r : ρ) (u : MetricUpdate) : Shared ρ :=
  { M with metrics := Function.update M.metrics r (u.apply (M.metrics r)) }

/-- The chaos module of replica `r` is replaced. -/
def Shared.setChaos (M : Shared ρ) (r : ρ) (m : ChaosModule) : Shared ρ :=
  { M with chaos := Function.update M.chaos r m }

@[simp] theorem Shared.metrics_metric (M : Shared ρ) (r : ρ) (u : MetricUpdate) :
    (M.metric r u).metrics = Function.update M.metrics r (u.apply (M.metrics r)) := rfl

@[simp] theorem Shared.chaos_setChaos (M : Shared ρ) (r : ρ) (m : ChaosModule) :
    (M.setChaos r m).chaos = Function.update M.chaos r m := rfl

/-- An observation with an exemplar. -/
def Shared.observe (M : Shared ρ) (r : ρ) (route : String) (seconds : ℚ)
    (labels : List (String × String)) : Shared ρ :=
  { M.metric r (.requestLatencyObserve route seconds) with
    exemplars := Function.update M.exemplars r
      (Function.update (M.exemplars r) (route, bucketOf seconds) (some labels)) }

/-- `latency.observe(elapsed, exemplar=…)`, which may raise, and then the count of the request. -/
def observeExemplar (M : Shared ρ) (r : ρ) (o : Observation) (elapsed : ℚ)
    (labels : List (String × String)) : ExemplarReply → Shared ρ × Handling
  | .accepted => (M.observe r o.route elapsed labels, .countRequest o)
  | .typeError => (M, .observeAgain o elapsed)
  | .valueError counted =>
    (if counted then M.metric r (.requestLatencyObserve o.route elapsed) else M,
      .observeAgain o elapsed)

variable (D : Rollout ω ρ) (w : ω)

/-- A step of the cache. -/
def cacheStep (M : Shared ρ) (t : Worker) (a : FleetAct) : Option (Shared ρ × Worker) :=
  (fleetStep D.toDeployment w M.world t a).map fun q => ({ M with world := q.1 }, q.2)

/-- A step of a chaos call. -/
def chaosCallStep (M : Shared ρ) (us : List (Op ChaosField.Value)) (c : Option ChaosCall) :
    Option (Shared ρ × List (Op ChaosField.Value)) :=
  (chaosStep w (M.chaos (D.replica w)) us c).map fun q => (M.setChaos (D.replica w) q.1, q.2)

/-- The next step of a handler. -/
def goStep (env : Env) (M : Shared ρ) : Handling → Option (Shared ρ × Handling)
  | .idle _ => none
  | .segment id => some (M.metric (D.replica w) .inflightInc, .chaos id .latencyTest)
  | .chaos id .bypass =>
    let bypass := (M.chaos (D.replica w)).state.cacheBypass
    (cacheStep D w M (.resting none) ⟨env.now, .getSegment id bypass⟩).map fun q =>
      (q.1, .cache id q.2)
  | .chaos id read =>
    some (M, afterChaosRead D.sleepLimit env.draw (M.chaos (D.replica w)).state id read)
  | .cache id (.resting (some (_, .error e))) => some (M, .finish id (.error e))
  | .cache id (.resting (some (_, .ok result))) =>
    some (M.metric (D.replica w) (lookupUpdate result), afterLookup id result)
  | .cache id t =>
    (cacheStep D w M t ⟨env.now, .go env.reply env.fetchSeconds⟩).map fun q => (q.1, .cache id q.2)
  | .originFetch id result =>
    some (M.metric (D.replica w) (.originFetchObserve result.originFetchSeconds),
      .observe (.found id result))
  | .observe o =>
    match currentTraceId (D.tracing (D.replica w)) env.span with
    | none =>
      some (M.metric (D.replica w) (.requestLatencyObserve o.route env.elapsed), .countRequest o)
    | some traceId =>
      let labels := exemplarLabels traceId
      some (observeExemplar M (D.replica w) o env.elapsed labels
        (D.exemplarReply (D.replica w) labels))
  | .observeAgain o elapsed =>
    some (M.metric (D.replica w) (.requestLatencyObserve o.route elapsed), .countRequest o)
  | .countRequest o =>
    some (M.metric (D.replica w) (.httpRequestsInc o.route (toString o.status)), o.after)
  | .finish id response =>
    some (M.metric (D.replica w) .inflightDec, .idle (some (.segment id response)))
  | .healthz =>
    some (M, .observe (.health (cacheStatus (D.config (D.replica w)) (M.world.proc (D.replica w)))))
  | .admin call =>
    if chaosEnabled (D.chaosVar (D.replica w)) then
      match call with
      | .read => some (M, .asdict .read {} chaosSchema.fields)
      | .set body =>
        (chaosCallStep D w M [] (some body.call)).map fun q => (q.1, .updating body q.2)
    else some (M, .idle (some (.admin (.ok .notFound))))
  | .invalid => some (M, .idle (some .unprocessable))
  | .updating body [] => some (M, .asdict (.set body) {} chaosSchema.fields)
  | .updating body us => (chaosCallStep D w M us none).map fun q => (q.1, .updating body q.2)
  | .asdict call state (f :: rest) =>
    some (M, .asdict call (state.copy (M.chaos (D.replica w)) f) rest)
  | .asdict call state [] =>
    let answer := Handling.idle (some (.admin (jsonResponse state call.actions)))
    match call with
    | .read => some (M, answer)
    | .set body =>
      if body.flushes then
        (cacheStep D w M (.resting none) ⟨env.now, .flush env.reply⟩).map fun q => (q.1, answer)
      else some (M, answer)

/-- One step of thread `w`. -/
def serverStep (M : Shared ρ) (h : Handling) (a : ServerAct) : Option (Shared ρ × Handling) :=
  match a, h with
  | .take request, .idle _ => some (M, request.start)
  | .take _, _ => none
  | .go env, h => goStep D w env M h

/-- The replicas and their threads. -/
abbrev Server (ω ρ : Type*) := Pool ω (Shared ρ) Handling

/-- New replicas, whose clocks read `t`. -/
def boot (t : ρ → ℚ) : Server ω ρ where
  shared :=
    { world := (launch D.toDeployment t).shared
      chaos := fun _ => ChaosModule.init
      metrics := fun _ => Metrics.init
      exemplars := fun _ _ => none }
  thread := fun _ => .idle none

/-! ## What a step can do -/

variable {D w} {M M' : Shared ρ}

theorem cacheStep_eq_some {t t' : Worker} {a : FleetAct} :
    cacheStep D w M t a = some (M', t') ↔
      ∃ W, fleetStep D.toDeployment w M.world t a = some (W, t') ∧ M' = { M with world := W } := by
  simp only [cacheStep, Option.map_eq_some_iff, Prod.exists, Prod.mk.injEq]
  constructor
  · rintro ⟨W, t₁, h, rfl, rfl⟩
    exact ⟨W, h, rfl⟩
  · rintro ⟨W, h, rfl⟩
    exact ⟨W, t', h, rfl, rfl⟩

theorem chaosCallStep_eq_some {us us' : List (Op ChaosField.Value)} {c : Option ChaosCall} :
    chaosCallStep D w M us c = some (M', us') ↔
      ∃ m, chaosStep w (M.chaos (D.replica w)) us c = some (m, us') ∧
        M' = M.setChaos (D.replica w) m := by
  simp only [chaosCallStep, Option.map_eq_some_iff, Prod.exists, Prod.mk.injEq]
  constructor
  · rintro ⟨m, us₁, h, rfl, rfl⟩
    exact ⟨m, h, rfl⟩
  · rintro ⟨m, h, rfl⟩
    exact ⟨m, us', h, rfl, rfl⟩

/-- The effect of a step with which a handler goes on. -/
inductive ServerEffect (D : Rollout ω ρ) (w : ω) (env : Env) (M : Shared ρ) :
    Handling → Shared ρ → Handling → Prop
  | inflightInc (id : String) : ServerEffect D w env M (.segment id)
      (M.metric (D.replica w) .inflightInc) (.chaos id .latencyTest)
  | chaosRead (id : String) (read : ChaosRead) : read ≠ .bypass →
      ServerEffect D w env M (.chaos id read) M
        (afterChaosRead D.sleepLimit env.draw (M.chaos (D.replica w)).state id read)
  | call (id : String) (W : World ρ) (t : Worker) :
      fleetStep D.toDeployment w M.world (.resting none)
        ⟨env.now, .getSegment id (M.chaos (D.replica w)).state.cacheBypass⟩ = some (W, t) →
      ServerEffect D w env M (.chaos id .bypass) { M with world := W } (.cache id t)
  | cache (id : String) (t t' : Worker) (W : World ρ) :
      fleetStep D.toDeployment w M.world t ⟨env.now, .go env.reply env.fetchSeconds⟩ =
        some (W, t') →
      ServerEffect D w env M (.cache id t) { M with world := W } (.cache id t')
  | raised (id id' : String) (e : PyError) :
      ServerEffect D w env M (.cache id (.resting (some (id', .error e)))) M (.finish id (.error e))
  | returned (id id' : String) (result : SegmentResult) :
      ServerEffect D w env M (.cache id (.resting (some (id', .ok result))))
        (M.metric (D.replica w) (lookupUpdate result)) (afterLookup id result)
  | originFetch (id : String) (result : SegmentResult) :
      ServerEffect D w env M (.originFetch id result)
        (M.metric (D.replica w) (.originFetchObserve result.originFetchSeconds))
        (.observe (.found id result))
  | observe (o : Observation) : ServerEffect D w env M (.observe o)
      (M.metric (D.replica w) (.requestLatencyObserve o.route env.elapsed)) (.countRequest o)
  | observeExemplar (o : Observation) (traceId : String) :
      currentTraceId (D.tracing (D.replica w)) env.span = some traceId →
      D.exemplarReply (D.replica w) (exemplarLabels traceId) = .accepted →
      ServerEffect D w env M (.observe o)
        (M.observe (D.replica w) o.route env.elapsed (exemplarLabels traceId)) (.countRequest o)
  | refused (o : Observation) : ServerEffect D w env M (.observe o) M (.observeAgain o env.elapsed)
  | refusedLate (o : Observation) (traceId : String) :
      currentTraceId (D.tracing (D.replica w)) env.span = some traceId →
      D.exemplarReply (D.replica w) (exemplarLabels traceId) = .valueError true →
      ServerEffect D w env M (.observe o)
        (M.metric (D.replica w) (.requestLatencyObserve o.route env.elapsed))
        (.observeAgain o env.elapsed)
  | observeAgain (o : Observation) (elapsed : ℚ) : ServerEffect D w env M (.observeAgain o elapsed)
      (M.metric (D.replica w) (.requestLatencyObserve o.route elapsed)) (.countRequest o)
  | countRequest (o : Observation) : ServerEffect D w env M (.countRequest o)
      (M.metric (D.replica w) (.httpRequestsInc o.route (toString o.status))) o.after
  | finish (id : String) (response : Except PyError Response) :
      ServerEffect D w env M (.finish id response)
        (M.metric (D.replica w) .inflightDec) (.idle (some (.segment id response)))
  | healthz : ServerEffect D w env M .healthz M
      (.observe (.health (cacheStatus (D.config (D.replica w)) (M.world.proc (D.replica w)))))
  | notFound (call : AdminCall) : chaosEnabled (D.chaosVar (D.replica w)) = false →
      ServerEffect D w env M (.admin call) M (.idle (some (.admin (.ok .notFound))))
  | unprocessable : ServerEffect D w env M .invalid M (.idle (some .unprocessable))
  | readChaos : chaosEnabled (D.chaosVar (D.replica w)) = true →
      ServerEffect D w env M (.admin .read) M (.asdict .read {} chaosSchema.fields)
  | beginUpdate (body : ChaosUpdate) (m : ChaosModule) (us : List (Op ChaosField.Value)) :
      chaosEnabled (D.chaosVar (D.replica w)) = true →
      chaosStep w (M.chaos (D.replica w)) [] (some body.call) = some (m, us) →
      ServerEffect D w env M (.admin (.set body)) (M.setChaos (D.replica w) m) (.updating body us)
  | update (body : ChaosUpdate) (us us' : List (Op ChaosField.Value)) (m : ChaosModule) :
      us ≠ [] → chaosStep w (M.chaos (D.replica w)) us none = some (m, us') →
      ServerEffect D w env M (.updating body us) (M.setChaos (D.replica w) m) (.updating body us')
  | updated (body : ChaosUpdate) : ServerEffect D w env M (.updating body []) M
      (.asdict (.set body) {} chaosSchema.fields)
  | copy (call : AdminCall) (state : ChaosState) (f : ChaosField) (rest : List ChaosField) :
      ServerEffect D w env M (.asdict call state (f :: rest)) M
        (.asdict call (state.copy (M.chaos (D.replica w)) f) rest)
  | answer (call : AdminCall) (state : ChaosState) :
      ServerEffect D w env M (.asdict call state []) M
        (.idle (some (.admin (jsonResponse state call.actions))))
  | flush (body : ChaosUpdate) (state : ChaosState) (W : World ρ) (t : Worker) :
      body.flushes = true →
      fleetStep D.toDeployment w M.world (.resting none) ⟨env.now, .flush env.reply⟩ =
        some (W, t) →
      ServerEffect D w env M (.asdict (.set body) state []) { M with world := W }
        (.idle (some (.admin (jsonResponse state (AdminCall.set body).actions))))

omit [DecidableEq ρ] in
/-- A step of a call within that of a handler. -/
theorem map_step_eq_some {τ : Type*} {q : Option (Shared ρ × τ)} {f : τ → Handling}
    {h' : Handling} :
    q.map (fun q => (q.1, f q.2)) = some (M', h') ↔ ∃ t, q = some (M', t) ∧ f t = h' := by
  simp only [Option.map_eq_some_iff, Prod.exists, Prod.mk.injEq]
  constructor
  · rintro ⟨M₁, t, hq, rfl, ht⟩
    exact ⟨t, hq, ht⟩
  · rintro ⟨t, hq, ht⟩
    exact ⟨M', t, hq, rfl, ht⟩

/-- **What a step of a handler can do.** -/
theorem goStep_effect {env : Env} {h h' : Handling} (hstep : goStep D w env M h = some (M', h')) :
    ServerEffect D w env M h M' h' := by
  cases h with
  | idle => cases hstep
  | segment id =>
    obtain ⟨rfl, rfl⟩ := Prod.mk.inj (Option.some.inj hstep)
    exact .inflightInc id
  | chaos id read =>
    cases read with
    | bypass =>
      simp only [goStep] at hstep
      obtain ⟨t, hq, rfl⟩ := map_step_eq_some.1 hstep
      obtain ⟨W, hW, rfl⟩ := cacheStep_eq_some.1 hq
      exact .call id W t hW
    | latencyTest | latencySleep | rateTest | rateDraw =>
      obtain ⟨rfl, rfl⟩ := Prod.mk.inj (Option.some.inj hstep)
      exact .chaosRead id _ nofun
  | cache id t =>
    have hgo : (cacheStep D w M t ⟨env.now, .go env.reply env.fetchSeconds⟩).map
        (fun q => (q.1, Handling.cache id q.2)) = some (M', h') →
        ServerEffect D w env M (.cache id t) M' h' := fun hstep => by
      obtain ⟨t', hq, rfl⟩ := map_step_eq_some.1 hstep
      obtain ⟨W, hW, rfl⟩ := cacheStep_eq_some.1 hq
      exact .cache id t t' W hW
    cases t with
    | resting last =>
      rcases last with _ | ⟨id', e | result⟩
      · exact hgo hstep
      · obtain ⟨rfl, rfl⟩ := Prod.mk.inj (Option.some.inj hstep)
        exact .raised id id' e
      · obtain ⟨rfl, rfl⟩ := Prod.mk.inj (Option.some.inj hstep)
        exact .returned id id' result
    | lookup | reading | readingMemory | origin | writing | writingMemory => exact hgo hstep
  | originFetch id result =>
    obtain ⟨rfl, rfl⟩ := Prod.mk.inj (Option.some.inj hstep)
    exact .originFetch id result
  | observe o =>
    simp only [goStep] at hstep
    cases hid : currentTraceId (D.tracing (D.replica w)) env.span with
    | none =>
      simp only [hid] at hstep
      obtain ⟨rfl, rfl⟩ := Prod.mk.inj (Option.some.inj hstep)
      exact .observe o
    | some traceId =>
      simp only [hid] at hstep
      rcases hreply : D.exemplarReply (D.replica w) (exemplarLabels traceId) with _ | _ | counted <;>
        rw [hreply] at hstep
      · obtain ⟨rfl, rfl⟩ := Prod.mk.inj (Option.some.inj hstep)
        exact .observeExemplar o traceId hid hreply
      · obtain ⟨rfl, rfl⟩ := Prod.mk.inj (Option.some.inj hstep)
        exact .refused o
      · obtain ⟨rfl, rfl⟩ := Prod.mk.inj (Option.some.inj hstep)
        cases counted with
        | true => exact .refusedLate o traceId hid hreply
        | false => exact .refused o
  | observeAgain o elapsed =>
    obtain ⟨rfl, rfl⟩ := Prod.mk.inj (Option.some.inj hstep)
    exact .observeAgain o elapsed
  | countRequest o =>
    obtain ⟨rfl, rfl⟩ := Prod.mk.inj (Option.some.inj hstep)
    exact .countRequest o
  | finish id response =>
    obtain ⟨rfl, rfl⟩ := Prod.mk.inj (Option.some.inj hstep)
    exact .finish id response
  | healthz =>
    obtain ⟨rfl, rfl⟩ := Prod.mk.inj (Option.some.inj hstep)
    exact .healthz
  | admin call =>
    simp only [goStep] at hstep
    split_ifs at hstep with hon
    · cases call with
      | read =>
        obtain ⟨rfl, rfl⟩ := Prod.mk.inj (Option.some.inj hstep)
        exact .readChaos hon
      | set body =>
        obtain ⟨us, hq, rfl⟩ := map_step_eq_some.1 hstep
        obtain ⟨m, hm, rfl⟩ := chaosCallStep_eq_some.1 hq
        exact .beginUpdate body m us hon hm
    · obtain ⟨rfl, rfl⟩ := Prod.mk.inj (Option.some.inj hstep)
      exact .notFound call (by simpa using hon)
  | invalid =>
    obtain ⟨rfl, rfl⟩ := Prod.mk.inj (Option.some.inj hstep)
    exact .unprocessable
  | updating body us =>
    cases us with
    | nil =>
      obtain ⟨rfl, rfl⟩ := Prod.mk.inj (Option.some.inj hstep)
      exact .updated body
    | cons o os =>
      simp only [goStep] at hstep
      obtain ⟨us', hq, rfl⟩ := map_step_eq_some.1 hstep
      obtain ⟨m, hm, rfl⟩ := chaosCallStep_eq_some.1 hq
      exact .update body _ us' m nofun hm
  | asdict call state rest =>
    cases rest with
    | cons f rest =>
      obtain ⟨rfl, rfl⟩ := Prod.mk.inj (Option.some.inj hstep)
      exact .copy call state f rest
    | nil =>
      cases call with
      | read =>
        obtain ⟨rfl, rfl⟩ := Prod.mk.inj (Option.some.inj hstep)
        exact .answer .read state
      | set body =>
        simp only [goStep] at hstep
        split_ifs at hstep with hflush
        · obtain ⟨⟨M₁, t⟩, hq, heq⟩ := Option.map_eq_some_iff.1 hstep
          obtain ⟨rfl, rfl⟩ := Prod.mk.inj heq
          obtain ⟨W, hW, rfl⟩ := cacheStep_eq_some.1 hq
          exact .flush body state W t hflush hW
        · obtain ⟨rfl, rfl⟩ := Prod.mk.inj (Option.some.inj hstep)
          exact .answer (.set body) state

/-- **What a step can do**: take up a request, or go on with one. -/
theorem serverStep_cases {h h' : Handling} {a : ServerAct}
    (hstep : serverStep D w M h a = some (M', h')) :
    (∃ last request, a = .take request ∧ h = .idle last ∧ M' = M ∧ h' = request.start) ∨
      ∃ env, a = .go env ∧ ServerEffect D w env M h M' h' := by
  cases a with
  | take request =>
    cases h with
    | idle last =>
      obtain ⟨rfl, rfl⟩ := Prod.mk.inj (Option.some.inj hstep)
      exact Or.inl ⟨last, request, rfl, rfl, rfl, rfl⟩
    | _ => cases hstep
  | go env => exact Or.inr ⟨env, rfl, goStep_effect hstep⟩

/-- A thread that has taken up a request is at its start. -/
theorem thread_of_take [DecidableEq ω] {s s' : Server ω ρ} {request : Request}
    (hstep : Pool.step (serverStep D) s (w, .take request) = some s') :
    s'.thread w = request.start := by
  obtain ⟨M', h', he, rfl⟩ := Pool.step_eq_some.1 hstep
  rcases serverStep_cases he with ⟨last, request', heq, -, -, rfl⟩ | ⟨env, heq, -⟩
  · obtain rfl := ServerAct.take.inj heq
    simp
  · cases heq

end EdgeCache.Service
