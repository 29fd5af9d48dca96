import EdgeCache.Cache.Outcome
import EdgeCache.Foundations.Script
import EdgeCache.Service.Chaos
import EdgeCache.Service.Metrics

/-!
# The segment route

`get_segment` of `app/main.py`, as a computation that updates metrics and may raise. A `Visit` is
what one request finds: the chaos state, the random draw, what the lookup in the cache returns, the
durations it measures, and whether the metrics library accepts its exemplar. `serve` runs the
request: it gives the response, or the exception that escapes, and the updates of the metrics in
their order.

What the lookup returns is left open; whatever a call of `get_segment` returns in a run of the fleet
is among the possibilities (`lookupSegment_of_fleet`). `serve_eq` lists all that a request can do.
-/

namespace EdgeCache.Service

open Cache Transition

/-! ## Responses -/

/-- Every character of the string has a code below 256. -/
def Latin1 (s : String) : Prop := ∀ c ∈ s.toList, c.toNat ≤ 0xFF

instance (s : String) : Decidable (Latin1 s) := inferInstanceAs (Decidable (∀ c ∈ s.toList, _))

/-- `s.encode("latin-1")`. -/
def encodeLatin1 (s : String) : Except PyError Bytes :=
  if Latin1 s then .ok (s.toList.map fun c => c.toNat.toUInt8) else .error .unicodeEncodeError

structure Response where
  statusCode : ℕ
  mediaType : String
  body : Bytes
  headers : List (Bytes × Bytes)
  deriving DecidableEq

/-- `Response(content=..., media_type=..., headers=...)`, which encodes the headers. -/
def Response.init (content : Bytes) (mediaType : String) (headers : List (String × String)) :
    Except PyError Response := do
  let headers ← headers.mapM fun h => do
    return (← encodeLatin1 h.1, ← encodeLatin1 h.2)
  return ⟨200, mediaType, content, headers⟩

/-- `JSONResponse(…, status_code=500)` for an injected fault. -/
def injectedFault : Response where
  statusCode := 500
  mediaType := "application/json"
  body := "\x7b\"error\":\"injected fault\"\x7d".toUTF8.data.toList
  headers := []

/-! ## The request -/

/-- What the route depends on of the configuration of the process and of its platform. -/
structure ServiceConfig where
  backend : Backend
  segmentTtlSeconds : ℤ
  segmentSizeBytes : ℤ
  originLatencySeconds : PyFloat
  sleepLimit : ℚ

/-- What the metrics library does with an exemplar. One that it rejects may have been counted
first. -/
inductive ExemplarReply
  | accepted
  | typeError
  | valueError (counted : Bool)
  deriving DecidableEq, Repr

/-- What a request finds. -/
structure Visit where
  segmentId : String
  chaos : ChaosRead → ChaosState
  /-- The value of `random.random()`. -/
  draw : ℚ
  /-- What the lookup returns, unless the cache is bypassed. -/
  cached : Option Bytes
  originFetchSeconds : ℚ
  /-- The latency that is observed. -/
  elapsed : ℚ
  /-- The reply to the exemplar, if there is a trace to name. -/
  exemplar : Option ExemplarReply

/-- Computations that update metrics and may raise. -/
abbrev Handler := ExceptT PyError (StateM (List MetricUpdate))

def emit (u : MetricUpdate) : Handler Unit := modify (· ++ [u])

/-- `latency.observe(elapsed, exemplar=…)`. -/
def latencyObserve (route : String) (elapsed : ℚ) (exemplar : Option ExemplarReply) :
    Handler Unit := do
  match exemplar with
  | some .typeError => throw .typeError
  | some (.valueError counted) =>
    if counted then emit (.requestLatencyObserve route elapsed)
    throw .valueError
  | _ => emit (.requestLatencyObserve route elapsed)

/-- `_observe`. -/
def observe (v : Visit) (route : String) (status : ℕ) : Handler Unit := do
  match v.exemplar with
  | some reply =>
    try
      latencyObserve route v.elapsed (some reply)
    catch e =>
      match e with
      | .typeError | .valueError => latencyObserve route v.elapsed none
      | e => throw e
  | none => latencyObserve route v.elapsed none
  emit (.httpRequestsInc route (toString status))

variable (c : ServiceConfig) (v : Visit)

/-- The call of `cache.get_segment`. -/
def lookupSegment : Except PyError SegmentResult :=
  segmentOutcome c.segmentSizeBytes c.sleepLimit c.originLatencySeconds
    (writeOutcome c.backend c.segmentTtlSeconds) v.segmentId (v.chaos .bypass).cacheBypass v.cached
    v.originFetchSeconds

/-- `get_segment`. -/
def getSegment : Handler Response := do
  emit .inflightInc
  try
    ofExcept (applyLatency c.sleepLimit v.chaos)
    if shouldError v.draw v.chaos then
      observe v "/segment" 500
      pure injectedFault
    else
      let result ← ofExcept (lookupSegment c v)
      if result.cacheHit then
        emit .cacheHitsInc
      else
        emit .cacheMissesInc
        emit (.originFetchObserve result.originFetchSeconds)
      observe v "/segment" 200
      ofExcept (Response.init result.data "application/octet-stream"
        [("X-Cache", if result.cacheHit then "HIT" else "MISS"), ("X-Segment-Id", v.segmentId)])
  finally
    emit .inflightDec

/-- The response of the request, or the exception that escapes it, and its updates. -/
def serve : Except PyError Response × List MetricUpdate := (getSegment c v).run.run []

/-- The status that the client receives: an exception is received as 500. -/
def received : ℕ :=
  match (serve c v).1 with
  | .ok response => response.statusCode
  | .error _ => 500

/-- The configuration of a process which is replica `r` of a deployment. -/
def ServiceConfig.ofReplica {ω ρ : Type*} (D : Deployment ω ρ) (r : ρ) : ServiceConfig where
  backend := (D.config r).backend
  segmentTtlSeconds := (D.config r).segmentTtlSeconds
  segmentSizeBytes := D.segmentSizeBytes
  originLatencySeconds := (D.config r).originLatencySeconds
  sleepLimit := D.sleepLimit

/-- **The lookup of a request stands for the calls of the fleet**: what a call returns on a replica
is what the requests there get that find the same. -/
theorem lookupSegment_of_fleet {ω ρ : Type*} [DecidableEq ω] [DecidableEq ρ] {D : Deployment ω ρ}
    {t₀ : ρ → ℚ} {s : Fleet ω ρ} (h : Reachable (Pool.step (fleetStep D)) (launch D t₀) s) {w : ω}
    {id : String} {result : Except PyError SegmentResult}
    (hw : s.thread w = .resting (some (id, result))) :
    ∃ bypass cached elapsed, ∀ v : Visit, v.segmentId = id →
      (v.chaos .bypass).cacheBypass = bypass → v.cached = cached → v.originFetchSeconds = elapsed →
      lookupSegment (ServiceConfig.ofReplica D (D.replica w)) v = result := by
  obtain ⟨bypass, cached, elapsed, rfl⟩ := outcome_run h hw
  refine ⟨bypass, cached, elapsed, fun v hid hbypass hcached helapsed => ?_⟩
  simp only [lookupSegment, hid, hbypass, hcached, helapsed]
  rfl

/-! ## What a request does -/

/-- The updates of `_observe`. -/
def observed (route : String) (status : ℕ) : List MetricUpdate :=
  let latency := MetricUpdate.requestLatencyObserve route v.elapsed
  (if v.exemplar = some (.valueError true) then [latency] else []) ++
    [latency, .httpRequestsInc route (toString status)]

/-- The updates for the outcome of the lookup. -/
def resultUpdates (result : SegmentResult) : List MetricUpdate :=
  if result.cacheHit then [.cacheHitsInc]
  else [.cacheMissesInc, .originFetchObserve result.originFetchSeconds]

section Run

variable {α β : Type} (log : List MetricUpdate)

theorem run_pure (a : α) : (pure a : Handler α).run.run log = (.ok a, log) := rfl

theorem run_throw (e : PyError) : (throw e : Handler α).run.run log = (.error e, log) := rfl

theorem run_emit (u : MetricUpdate) : (emit u).run.run log = (.ok (), log ++ [u]) := rfl

theorem run_ofExcept (x : Except PyError α) :
    (ofExcept x : Handler α).run.run log = (x, log) := by
  cases x <;> rfl

theorem run_bind (x : Handler α) (f : α → Handler β) : (x >>= f).run.run log =
    match x.run.run log with
    | (.ok a, log') => (f a).run.run log'
    | (.error e, log') => (.error e, log') := by
  rw [ExceptT.run_bind, StateT.run_bind]
  rcases x.run.run log with ⟨_ | a, log'⟩ <;> rfl

theorem run_tryCatch (x : Handler α) (f : PyError → Handler α) :
    (tryCatch x f).run.run log =
      match x.run.run log with
      | (.ok a, log') => (.ok a, log')
      | (.error e, log') => (f e).run.run log' := by
  have h : ∀ y : Except PyError α × List MetricUpdate, x log = y →
      (tryCatch x f).run.run log =
        match y with
        | (.ok a, log') => (.ok a, log')
        | (.error e, log') => (f e).run.run log' := by
    rintro ⟨r, log'⟩ hx
    simp only [tryCatch, tryCatchThe, MonadExceptOf.tryCatch, ExceptT.tryCatch, ExceptT.run,
      ExceptT.mk, StateT.run, bind, StateT.bind, hx]
    cases r <;> rfl
  exact h _ rfl

theorem run_tryFinally (x : Handler α) (u : MetricUpdate) :
    (tryFinally x (emit u)).run.run log = ((x.run.run log).1, (x.run.run log).2 ++ [u]) := by
  have h : ∀ y : Except PyError α × List MetricUpdate, x log = y →
      (tryFinally x (emit u)).run.run log = (y.1, y.2 ++ [u]) := by
    rintro ⟨r, log'⟩ hx
    simp only [tryFinally, tryFinally', ExceptT.run, ExceptT.mk, StateT.run, Functor.map,
      ExceptT.map, bind, StateT.bind, pure, hx]
    cases r <;> rfl
  exact h _ rfl

end Run

theorem run_observe (route : String) (status : ℕ) (log : List MetricUpdate) :
    (observe v route status).run.run log = (.ok (), log ++ observed v route status) := by
  unfold observe observed
  rcases v.exemplar with _ | _ | _ | _ | _ <;>
    simp only [latencyObserve, run_bind, run_emit, run_throw, run_tryCatch, if_true, if_false,
      reduceCtorEq, Option.some.injEq, ExemplarReply.valueError.injEq, List.append_assoc,
      List.nil_append, List.cons_append, Bool.false_eq_true]

/-- **All that a request can do.** -/
theorem serve_eq : serve c v =
    match applyLatency c.sleepLimit v.chaos, shouldError v.draw v.chaos, lookupSegment c v with
    | .error e, _, _ => (.error e, [.inflightInc, .inflightDec])
    | .ok (), true, _ =>
      (.ok injectedFault, [.inflightInc] ++ observed v "/segment" 500 ++ [.inflightDec])
    | .ok (), false, .error e => (.error e, [.inflightInc, .inflightDec])
    | .ok (), false, .ok result =>
      (Response.init result.data "application/octet-stream"
          [("X-Cache", if result.cacheHit then "HIT" else "MISS"), ("X-Segment-Id", v.segmentId)],
        [.inflightInc] ++ resultUpdates result ++ observed v "/segment" 200 ++ [.inflightDec]) := by
  rw [serve, getSegment]
  simp only [run_bind, run_emit, run_tryFinally, run_ofExcept]
  cases applyLatency c.sleepLimit v.chaos with
  | error e => rfl
  | ok u =>
    cases shouldError v.draw v.chaos with
    | true =>
      simp only [run_bind, run_observe, run_pure, if_true, List.nil_append]
    | false =>
      cases lookupSegment c v with
      | error e => rfl
      | ok result =>
        cases hhit : result.cacheHit <;>
          simp only [run_bind, run_emit, run_observe, run_ofExcept, resultUpdates, hhit, if_true,
            if_false, Bool.false_eq_true, List.nil_append, List.cons_append]

end EdgeCache.Service
