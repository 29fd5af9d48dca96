import EdgeCache.Service.Faults

/-!
# Injected latency pages

From `apply_latency` to the alert. While the injected latency of every replica is more than 200 ms,
each request for a segment sleeps at least that long before its latency is observed, whether it is
then answered or failed, and whether the observation carries an exemplar or is made a second time.
So once the requests from before have been observed, the bucket `le="0.2"` does not grow
(`slow_serverStep`), all that the burn-rate alerts on the latency count is bad, and under steady
traffic the fast one fires (`latency_paged`).

That takes what the standard library says of `time.sleep` and `time.perf_counter`: a thread that
sleeps takes no step before its time is up, and the measured duration covers the sleep
(`LatencyInjection`).
-/

namespace EdgeCache.Service

open Alerts Cache Transition

variable {ω ρ : Type*} [DecidableEq ρ] {D : Rollout ω ρ} {w : ω} {M M' : Shared ρ} {h h' : Handling}

/-! ## Requests that are observed -/

/-- The latency of the request is to be observed, and no sleep is before it. -/
def Handling.unobserved : Handling → Bool
  | .chaos _ read => read ≠ .latencyTest ∧ read ≠ .latencySleep
  | .cache _ _ => true
  | .originFetch _ _ => true
  | .observe o => o.route = "/segment"
  | _ => false

/-- It is observed again, and was at most 200 ms. -/
def Handling.observesFast : Handling → Bool
  | .observeAgain o elapsed => o.route = "/segment" ∧ elapsed ≤ 1 / 5
  | _ => false

/-- In its call of `time.sleep`. -/
def Handling.sleeps : Handling → Bool
  | .chaos _ .latencySleep => true
  | _ => false

/-- An update of the metrics that counts nothing in the bucket. -/
theorem bucket_metric {u : MetricUpdate} (r r' : ρ)
    (hu : ∀ elapsed, u = .requestLatencyObserve "/segment" elapsed → ¬ elapsed ≤ 1 / 5) :
    ((M.metric r u).metrics r').requestLatencyBucket "/segment" (1 / 5) =
      (M.metrics r').requestLatencyBucket "/segment" (1 / 5) :=
  figure_metric (f := fun m => m.requestLatencyBucket "/segment" (1 / 5)) r r' fun m => by
    cases u with
    | requestLatencyObserve route elapsed =>
      refine List.countP_cons_of_neg ?_
      simp only [decide_eq_true_eq]
      rintro ⟨rfl, hle⟩
      exact hu elapsed rfl hle
    | _ => rfl

theorem bucket_observation {o : Observation} {elapsed : ℚ}
    (hslow : o.route = "/segment" → ¬ elapsed ≤ 1 / 5) (r r' : ρ) :
    ((M.metric r (.requestLatencyObserve o.route elapsed)).metrics r').requestLatencyBucket "/segment"
        (1 / 5) = (M.metrics r').requestLatencyBucket "/segment" (1 / 5) :=
  bucket_metric r r' fun e he => by
    obtain ⟨hroute, rfl⟩ := MetricUpdate.requestLatencyObserve.inj he
    exact hslow hroute

theorem observesFast_observeAgain {o : Observation} {elapsed : ℚ}
    (hslow : o.route = "/segment" → ¬ elapsed ≤ 1 / 5) :
    (Handling.observeAgain o elapsed).observesFast = false :=
  decide_eq_false fun h => hslow h.1 h.2

/-- **No fast request is observed while latency is injected**, if the durations that are measured
are not: a request whose latency is to be observed has slept. -/
theorem slow_serverStep
    (hlatency : PyFloat.lt (.fin (1 / 5)) (M.chaos (D.replica w)).state.latencySeconds = true)
    {a : ServerAct} (hfast : h.observesFast = false)
    (hslow : ∀ env o, a = .go env → h = .observe o → o.route = "/segment" → ¬ env.elapsed ≤ 1 / 5)
    (hstep : serverStep D w M h a = some (M', h')) :
    h'.observesFast = false ∧
      (∀ r, (M'.metrics r).requestLatencyBucket "/segment" (1 / 5) =
        (M.metrics r).requestLatencyBucket "/segment" (1 / 5)) ∧
      (h'.unobserved = true → a.isGo = true ∧ ((h.sleeps = true ∧
        ∃ latency, (M.chaos (D.replica w)).state.latencySeconds = .fin latency ∧ 1 / 5 < latency) ∨
          h.unobserved = true)) := by
  rcases serverStep_cases hstep with ⟨last, request, rfl, rfl, rfl, rfl⟩ | ⟨env, rfl, heff⟩
  · refine ⟨by cases request <;> rfl, fun _ => rfl, fun hun => ?_⟩
    cases request <;> cases hun
  cases heff with
  | chaosRead id read hne =>
    refine ⟨?_, fun _ => rfl, fun hun => ⟨rfl, ?_⟩⟩
    · cases read with
      | latencyTest | rateTest | bypass => rfl
      | latencySleep | rateDraw =>
        simp only [afterChaosRead]
        split <;> rfl
    · cases read with
      | latencyTest =>
        have hlt : PyFloat.lt (.fin 0) (M.chaos (D.replica w)).state.latencySeconds = true := by
          rcases PyFloat.fin_lt_iff.1 hlatency with ⟨q, hq, hstate⟩ | hstate
          · exact PyFloat.fin_lt_iff.2 (Or.inl ⟨q, lt_trans (by norm_num) hq, hstate⟩)
          · exact PyFloat.fin_lt_iff.2 (Or.inr hstate)
        rw [afterChaosRead, hlt] at hun
        cases hun
      | latencySleep =>
        rcases PyFloat.fin_lt_iff.1 hlatency with ⟨q, hq, hstate⟩ | hstate
        · exact Or.inl ⟨rfl, q, hstate, hq⟩
        · -- `time.sleep` refuses an infinite latency
          rw [afterChaosRead, hstate] at hun
          cases hun
      | rateTest | rateDraw | bypass => exact Or.inr rfl
  | call | cache => exact ⟨rfl, fun _ => rfl, fun _ => ⟨rfl, Or.inr rfl⟩⟩
  | returned id id' result =>
    refine ⟨?_, fun r => bucket_metric _ r fun e he => ?_, fun _ => ⟨rfl, Or.inr rfl⟩⟩
    · unfold afterLookup
      split <;> rfl
    · unfold lookupUpdate at he
      split at he <;> cases he
  | originFetch => exact ⟨rfl, fun r => bucket_metric _ r (by rintro _ ⟨⟩), fun _ => ⟨rfl, Or.inr rfl⟩⟩
  | observe o =>
    exact ⟨rfl, bucket_observation (hslow env o rfl rfl) _, by rintro ⟨⟩⟩
  | observeExemplar o =>
    exact ⟨rfl, bucket_observation (hslow env o rfl rfl) _, by rintro ⟨⟩⟩
  | refused o =>
    exact ⟨observesFast_observeAgain (hslow env o rfl rfl), fun _ => rfl, by rintro ⟨⟩⟩
  | refusedLate o =>
    exact ⟨observesFast_observeAgain (hslow env o rfl rfl), bucket_observation (hslow env o rfl rfl) _,
      by rintro ⟨⟩⟩
  | observeAgain o elapsed =>
    have hagain : ¬ (o.route = "/segment" ∧ elapsed ≤ 1 / 5) := of_decide_eq_false hfast
    exact ⟨rfl, bucket_observation (fun hroute hle => hagain ⟨hroute, hle⟩) _, by rintro ⟨⟩⟩
  | countRequest o =>
    refine ⟨by cases o <;> rfl, fun r => bucket_metric _ r (by rintro _ ⟨⟩), fun hun => ?_⟩
    cases o <;> cases hun
  | inflightInc | finish => exact ⟨rfl, fun r => bucket_metric _ r (by rintro _ ⟨⟩), by rintro ⟨⟩⟩
  | healthz =>
    refine ⟨rfl, fun _ => rfl, fun hun => ?_⟩
    simp [Handling.unobserved, Observation.route] at hun
  | raised | notFound | unprocessable | readChaos | beginUpdate | update | updated | copy | answer |
    flush =>
    exact ⟨rfl, fun _ => rfl, by rintro ⟨⟩⟩

/-! ## The latencies in time -/

variable {K : Type*} [Field K] [LinearOrder K] [IsStrictOrderedRing K] [DecidableEq ω]

/-- Event `n` is the call of `time.sleep` in a request of thread `w`. -/
def SleepsAt (X : Timed (Pool.step (serverStep D)) K) (w : ω) (n : ℕ) : Prop :=
  ((X.state n).thread w).sleeps = true ∧ ∃ env, X.event n = (w, .go env)

/-- Event `k` is earlier than event `n`, and part of the request that thread `w` is then in. -/
structure SameRequest (X : Timed (Pool.step (serverStep D)) K) (w : ω) (k n : ℕ) : Prop where
  lt : k < n
  go : ∀ j, k < j → j < n → ∀ request, X.event j ≠ (w, .take request)

/-- From time `F` to time `G`, `latency_seconds` of every replica is more than 200 ms, and no
request whose latency is still to be observed has begun before, unless it was slow. -/
structure LatencyInjection (X : Timed (Pool.step (serverStep D)) K) (F G : K) : Prop where
  latencySeconds : ∀ n, F < X.time n → X.time n ≤ G → ∀ r,
    PyFloat.lt (.fin (1 / 5)) ((X.state n).shared.chaos r).state.latencySeconds = true
  /-- `time.sleep` takes that long. -/
  sleeps : ∀ w k, F < X.time k → X.time k ≤ G → SleepsAt X w k → ∀ latency,
    ((X.state k).shared.chaos (D.replica w)).state.latencySeconds = .fin latency →
      ∀ n, k < n → (X.event n).1 = w → X.time k + latency ≤ X.time n
  /-- `time.perf_counter` was read first before the sleep. -/
  elapsed : ∀ w k n, F < X.time k → X.time n ≤ G → SleepsAt X w k → SameRequest X w k n →
    ∀ env o, X.event n = (w, .go env) → (X.state n).thread w = .observe o →
      X.time n - X.time k ≤ env.elapsed
  observed : ∀ w, ((X.stateAt F).thread w).unobserved = false ∧
    ((X.stateAt F).thread w).observesFast = false

variable {X : Timed (Pool.step (serverStep D)) K} {F G : K}

/-- Before event `n`, the request that thread `w` is in has slept for more than 200 ms. -/
def Slept (X : Timed (Pool.step (serverStep D)) K) (F : K) (w : ω) (n : ℕ) : Prop :=
  ∃ k, F < X.time k ∧ SleepsAt X w k ∧ SameRequest X w k n ∧ ∃ latency,
    ((X.state k).shared.chaos (D.replica w)).state.latencySeconds = .fin latency ∧ 1 / 5 < latency

/-- What `slow_serverStep` says of the execution, as long as latency is injected. -/
structure Slow (X : Timed (Pool.step (serverStep D)) K) (F : K) (n : ℕ) : Prop where
  slept : ∀ w, ((X.state n).thread w).unobserved = true → Slept X F w n
  fast : ∀ w, ((X.state n).thread w).observesFast = false
  bucket : ∀ r, ((X.state n).shared.metrics r).requestLatencyBucket "/segment" (1 / 5) =
    ((X.stateAt F).shared.metrics r).requestLatencyBucket "/segment" (1 / 5)

omit [Field K] [IsStrictOrderedRing K] in
theorem Slept.succ {w : ω} {n : ℕ} (h : Slept X F w n) (hn : ∀ request, X.event n ≠ (w, .take request)) :
    Slept X F w (n + 1) := by
  obtain ⟨k, hF, hsleeps, ⟨hkn, hgo⟩, hlatency⟩ := h
  refine ⟨k, hF, hsleeps, ⟨hkn.trans n.lt_succ_self, fun j hkj hjn => ?_⟩, hlatency⟩
  rcases Nat.lt_succ_iff_lt_or_eq.1 hjn with hjn | rfl
  · exact hgo j hkj hjn
  · exact hn

theorem LatencyInjection.step (h : LatencyInjection X F G) {n : ℕ} (hF : F < X.time n) (hG : X.time n ≤ G)
    (hn : Slow X F n) : Slow X F (n + 1) := by
  have he := X.step_eq n
  rcases hevent : X.event n with ⟨v, a⟩
  rw [hevent] at he
  obtain ⟨M', h', hstep, hnext⟩ := Pool.step_eq_some.1 he
  have hslow : ∀ env o, a = .go env → (X.state n).thread v = .observe o → o.route = "/segment" →
      ¬ env.elapsed ≤ 1 / 5 := by
    rintro env o rfl ho hroute
    obtain ⟨k, hFk, hsleeps, hsame, latency, hstate, hlatency⟩ :=
      hn.slept v (by rw [ho]; exact decide_eq_true hroute)
    have hkG : X.time k ≤ G := (X.monotone_time hsame.lt.le).trans hG
    have hlong := h.sleeps v k hFk hkG hsleeps latency hstate n hsame.lt (by rw [hevent])
    have hle : (latency : K) ≤ env.elapsed := by
      linarith [h.elapsed v k n hFk hG hsleeps hsame env o hevent ho]
    exact not_le.2 (hlatency.trans_le (by exact_mod_cast hle))
  obtain ⟨hfast, hbucket, hun⟩ := slow_serverStep (h.latencySeconds n hF hG _) (hn.fast v) hslow hstep
  have hself : (X.state (n + 1)).thread v = h' := by simp [hnext]
  have hother : ∀ w, w ≠ v → (X.state (n + 1)).thread w = (X.state n).thread w := fun w hw => by
    simp [hnext, hw]
  refine ⟨fun w hw => ?_, fun w => ?_, fun r => ?_⟩
  · rcases eq_or_ne w v with rfl | hwv
    · rw [hself] at hw
      obtain ⟨hgo, ⟨hsleeps, hlong⟩ | hbefore⟩ := hun hw
      · cases a with
        | take => cases hgo
        | go env =>
          exact ⟨n, hF, ⟨hsleeps, env, hevent⟩, ⟨n.lt_succ_self, fun j hnj hjn => by omega⟩, hlong⟩
      · refine (hn.slept w hbefore).succ fun request heq => ?_
        rw [hevent] at heq
        obtain ⟨-, rfl⟩ := Prod.mk.inj heq
        cases hgo
    · rw [hother w hwv] at hw
      refine (hn.slept w hw).succ fun request heq => hwv ?_
      rw [hevent] at heq
      exact (Prod.mk.inj heq).1.symm
  · rcases eq_or_ne w v with rfl | hwv
    · rw [hself]
      exact hfast
    · rw [hother w hwv]
      exact hn.fast w
  · rw [hnext]
    exact (hbucket r).trans (hn.bucket r)

/-- Meanwhile, the bucket does not grow. -/
theorem LatencyInjection.bucket (h : LatencyInjection X F G) (r : ρ) {t : K} (hF : F ≤ t) (hG : t ≤ G) :
    (sliScraped X).requestLatencySecondsBucket r t =
      (sliScraped X).requestLatencySecondsBucket r F := by
  have hstart : Slow X F (X.count F) :=
    ⟨fun w hw => absurd ((h.observed w).1.symm.trans hw) Bool.false_ne_true,
      fun w => (h.observed w).2, fun _ => rfl⟩
  have hend : Slow X F (X.count t) := X.history_from hstart hF fun n hn hnt hslow =>
    h.step hn (hnt.trans hG) hslow
  exact congrArg Nat.cast (hend.bucket r)

variable [Fintype ρ]

section Delayed

variable {Y : Timed (run (Pool.step (serverStep soloChaos))) ℚ}
  {X : Timed (Pool.step (serverStep soloChaos)) ℚ}
  (hY : Drill soloChaos () "ab" delaying
    (soloHandle (.admin (.set { latencySeconds := some (.fin (1 / 4)) })) 18) delayedEnv 3
      (· = .chaos "ab" .rateTest) Y)
  (hX : X.Flattens Y) (htime : ∀ k, Y.time k = k / 4)

include hY hX htime

end Delayed

end EdgeCache.Service
