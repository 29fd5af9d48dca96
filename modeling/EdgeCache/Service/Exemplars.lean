import EdgeCache.Service.Answers

/-!
# The exemplars

An exemplar of `request_latency_seconds` names the trace that was being sampled by a handler of the
replica when it observed a latency in that bucket, so that there is a trace to be found
(`exemplars_resolve`).
-/

namespace EdgeCache.Service

open Cache PartialUpdate Transition

variable {ω ρ : Type*} [DecidableEq ρ] {D : Rollout ω ρ} {w : ω} {M M' : Shared ρ} {h h' : Handling}

/-! ## Exemplars -/

/-- In state `s`, the step is the observation of a latency in the bucket, of a request for `route`,
by a thread of replica `r` in a sampled trace, of which the id is `id`. -/
structure Samples (D : Rollout ω ρ) (r : ρ) (route : String) (bucket : ℕ) (id : String) (s : Server ω ρ)
    (e : ω × ServerAct) : Prop where
  replica : D.replica e.1 = r
  observes : ∃ o, s.thread e.1 = .observe o ∧ o.route = route
  tracing : D.tracing r = true
  span : ∃ env, e.2 = .go env ∧ env.span.sampled = true ∧ bucketOf env.elapsed = bucket ∧
    id.length = 32 ∧ Hex.ofChars id.toList = env.span.traceId ∧ env.span.traceId ≠ 0
  accepted : D.exemplarReply r (exemplarLabels id) = .accepted

variable [DecidableEq ω]

/-- Every exemplar was made at one of the steps from `s₀`. -/
def Resolves (D : Rollout ω ρ) (s₀ : Server ω ρ) (es : List (ω × ServerAct)) (M : Shared ρ) : Prop :=
  ∀ r route bucket labels, M.exemplars r (route, bucket) = some labels →
    ∃ id, labels = [("trace_id", id)] ∧ ∃ pre e post s, es = pre ++ e :: post ∧
      run (Pool.step (serverStep D)) s₀ pre = some s ∧ Samples D r route bucket id s e

theorem Resolves.concat {s₀ : Server ω ρ} {es : List (ω × ServerAct)} (h : Resolves D s₀ es M)
    (a : ω × ServerAct) (hM : M'.exemplars = M.exemplars) : Resolves D s₀ (es ++ [a]) M' :=
  fun r route bucket labels hl => by
    rw [hM] at hl
    obtain ⟨id, hid, pre, e, post, s, rfl, hpre, hsamples⟩ := h r route bucket labels hl
    exact ⟨id, hid, pre, e, post ++ [a], s, by simp, hpre, hsamples⟩

omit [DecidableEq ω] in
/-- What a step of a handler does to the exemplars. -/
theorem exemplars_serverEffect {env : Env} (heff : ServerEffect D w env M h M' h') :
    M'.exemplars = M.exemplars ∨ ∃ o traceId, h = .observe o ∧
      currentTraceId (D.tracing (D.replica w)) env.span = some traceId ∧
        D.exemplarReply (D.replica w) (exemplarLabels traceId) = .accepted ∧
        M'.exemplars = Function.update M.exemplars (D.replica w)
          (Function.update (M.exemplars (D.replica w)) (Observation.route o, bucketOf env.elapsed)
            (some (exemplarLabels traceId))) := by
  cases heff with
  | observeExemplar o traceId hid hreply => exact Or.inr ⟨o, traceId, rfl, hid, hreply, rfl⟩
  | inflightInc | chaosRead | call | cache | raised | returned | originFetch | observe | refused |
    refusedLate | observeAgain | countRequest | finish | healthz | notFound | unprocessable |
    readChaos | beginUpdate | update | updated | copy | answer | flush => exact Or.inl rfl

theorem tracing_of_currentTraceId {enabled : Bool} {ctx : SpanContext} {id : String}
    (h : currentTraceId enabled ctx = some id) : enabled = true := by
  cases enabled with
  | true => rfl
  | false => cases h

theorem resolves_step {s₀ s s' : Server ω ρ} {es : List (ω × ServerAct)} {e : ω × ServerAct}
    (hs : run (Pool.step (serverStep D)) s₀ es = some s) (hM : Resolves D s₀ es s.shared)
    (he : Pool.step (serverStep D) s e = some s') : Resolves D s₀ (es ++ [e]) s'.shared := by
  obtain ⟨w, a⟩ := e
  obtain ⟨M', h', hstep, rfl⟩ := Pool.step_eq_some.1 he
  rcases serverStep_cases hstep with ⟨last, request, -, -, rfl, -⟩ | ⟨env, rfl, heff⟩
  · exact hM.concat _ rfl
  rcases exemplars_serverEffect heff with hsame | ⟨o, traceId, hthread, hid, hreply, hset⟩
  · exact hM.concat _ hsame
  intro r route bucket labels hl
  rw [hset] at hl
  by_cases hr : r = D.replica w
  · subst hr
    rw [Function.update_self] at hl
    by_cases hkey : (route, bucket) = (o.route, bucketOf env.elapsed)
    · -- the exemplar of this step
      rw [hkey, Function.update_self] at hl
      obtain rfl := Option.some.inj hl
      obtain ⟨rfl, rfl⟩ := Prod.mk.inj hkey
      obtain ⟨hsampled, hne, hlength, hvalue⟩ := currentTraceId_eq_some hid
      exact ⟨traceId, rfl, es, _, [], s, rfl, hs, rfl, ⟨o, hthread, rfl⟩, tracing_of_currentTraceId hid,
        ⟨env, rfl, hsampled, rfl, hlength, hvalue, hne⟩, hreply⟩
    · rw [Function.update_of_ne hkey] at hl
      exact (hM.concat _ rfl) _ _ _ _ hl
  · rw [Function.update_of_ne hr] at hl
    exact (hM.concat _ rfl) _ _ _ _ hl

/-- **Every exemplar resolves.** In every run of the service, the exemplar shown for a route and a
bucket of a replica was made at a step of the run at which a thread of the replica observed a
latency in that bucket, of a request for the route; it names the trace that was being sampled then,
by the 32 hexadecimal digits of its id. -/
theorem exemplars_resolve {t : ρ → ℚ} {s : Server ω ρ} {es : List (ω × ServerAct)}
    (h : run (Pool.step (serverStep D)) (boot D t) es = some s) {r : ρ} {route : String}
    {bucket : ℕ} {labels : List (String × String)}
    (hl : s.shared.exemplars r (route, bucket) = some labels) :
    ∃ id, labels = [("trace_id", id)] ∧ ∃ pre e post s₁, es = pre ++ e :: post ∧
      run (Pool.step (serverStep D)) (boot D t) pre = some s₁ ∧ Samples D r route bucket id s₁ e := by
  let I : List (ω × ServerAct) → Server ω ρ → Prop := fun fs s =>
    run (Pool.step (serverStep D)) (boot D t) fs = some s ∧ Resolves D (boot D t) fs s.shared
  have key : ∀ fs s e s', I fs s → True → Pool.step (serverStep D) s e = some s' → I (fs ++ [e]) s' :=
    fun fs s e s' hI _ he => ⟨(run_append_eq_some _).2 ⟨s, hI.1, (run_cons_eq_some _).2 ⟨s', he, rfl⟩⟩,
      resolves_step hI.1 hI.2 he⟩
  have hstart : I [] (boot D t) := ⟨rfl, fun _ _ _ _ hl => by cases hl⟩
  have hend := Along.invariant_foldl key (along_true _ es) hstart h
  rw [foldl_snoc, List.nil_append] at hend
  exact hend.2 r route bucket labels hl

/-- The deployment with tracing, and a span of a sampled trace. -/
def tracedLab : Rollout Bool Bool := { lab with tracing := fun _ => true }

def sampledSpan : SpanContext := ⟨true, 0xcafe, true, fun _ => by norm_num⟩

/-- A health check in that trace. -/
def tracedCheck : List (Bool × ServerAct) :=
  (true, .take .healthz) :: List.replicate 2 (true, .go { calm with span := sampledSpan })

/-- Its exemplar, in the bucket of 150 ms, names the trace. -/
theorem exemplars_resolve_check : ∃ s,
    run (Pool.step (serverStep tracedLab)) (boot tracedLab fun _ => 0) tracedCheck = some s ∧
      ∃ labels, s.shared.exemplars true ("/healthz", 5) = some labels ∧
        ∃ id, labels = [("trace_id", id)] ∧ ∃ pre e post s₁, tracedCheck = pre ++ e :: post ∧
          run (Pool.step (serverStep tracedLab)) (boot tracedLab fun _ => 0) pre = some s₁ ∧
            Samples tracedLab true "/healthz" 5 id s₁ e := by
  obtain ⟨s, hs, hobs⟩ := Option.map_eq_some_iff.1 (show
    (run (Pool.step (serverStep tracedLab)) (boot tracedLab fun _ => 0) tracedCheck).map
      (fun s => s.shared.exemplars true ("/healthz", 5)) =
      some (some [("trace_id", "0000000000000000000000000000cafe")]) by decide +kernel)
  exact ⟨s, hs, _, hobs, exemplars_resolve hs hobs⟩

end EdgeCache.Service
