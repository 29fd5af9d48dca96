import EdgeCache.Alerts.HitRatio
import EdgeCache.Cache.Outcome
import EdgeCache.Service.Drill

/-!
# A Redis outage is detected

From the requests to the alert. The counters of the service at each time of an execution are what
`EdgeCacheHitRatioCollapsed` reads (`scraped`). While Redis does not answer, no lookup of a strict
replica becomes a hit, whatever the breakers, the clients and the chaos endpoint do; so once the
hits from before have been counted, no more are (`hits_serverStep`). Under traffic, that is the
outage which the alert detects (`outage_detected`).
-/

namespace EdgeCache.Service

open Alerts Cache Transition

variable {ω ρ : Type*} [DecidableEq ρ] {D : Rollout ω ρ} {w : ω} {M M' : Shared ρ} {h h' : Handling}

/-! ## Hits -/

/-- The request may still be counted as a hit, even if Redis does not answer any more. -/
def Handling.mayHit : Handling → Bool
  | .cache _ t => t.mayHit
  | _ => false

/-- If the step calls Redis, the call raises. -/
def ServerAct.RedisDown (a : ServerAct) : Prop :=
  ∀ env, a = .go env → ∃ applied, env.reply = .raises applied

/-- A figure that an update of the metrics leaves as it is. -/
theorem figure_metric {α : Type*} {f : Metrics → α} {u : MetricUpdate} (r r' : ρ)
    (hu : ∀ m, f (u.apply m) = f m) : f ((M.metric r u).metrics r') = f (M.metrics r') := by
  by_cases hr : r' = r
  · subst hr
    rw [Shared.metrics_metric, Function.update_self, hu]
  · rw [Shared.metrics_metric, Function.update_of_ne hr]

/-- An update of another metric. -/
theorem hits_metric {u : MetricUpdate} (r r' : ρ) (hu : u ≠ .cacheHitsInc) :
    ((M.metric r u).metrics r').cacheHitsTotal = (M.metrics r').cacheHitsTotal :=
  figure_metric (f := Metrics.cacheHitsTotal) r r' fun _ => by
    cases u <;> first | rfl | exact absurd rfl hu

/-- **No hit is counted while Redis is down**, on strict replicas, apart from those of lookups that
Redis has answered before. -/
theorem hits_serverStep (hredis : (D.config (D.replica w)).backend = .redis) {a : ServerAct}
    (ha : a.RedisDown) (hh : h.mayHit = false) (hstep : serverStep D w M h a = some (M', h')) :
    h'.mayHit = false ∧ ∀ r, (M'.metrics r).cacheHitsTotal = (M.metrics r).cacheHitsTotal := by
  rcases serverStep_cases hstep with ⟨last, request, rfl, rfl, rfl, rfl⟩ | ⟨env, rfl, heff⟩
  · exact ⟨by cases request <;> rfl, fun _ => rfl⟩
  obtain ⟨applied, hreply⟩ := ha env rfl
  cases heff with
  | chaosRead id read =>
    refine ⟨?_, fun _ => rfl⟩
    cases read with
    | latencyTest | rateTest | bypass => rfl
    | latencySleep =>
      simp only [afterChaosRead]
      split <;> rfl
    | rateDraw =>
      simp only [afterChaosRead]
      split <;> rfl
  | call id W t hW =>
    obtain ⟨-, -, -, rfl⟩ := fleetStep_getSegment.1 hW
    refine ⟨?_, fun _ => rfl⟩
    split <;> rfl
  | cache id t t' W hW =>
    obtain ⟨-, W₁, hseg, -⟩ := fleetStep_go.1 hW
    rw [hreply] at hseg
    exact ⟨mayHit_segmentEffect hredis hh hseg, fun _ => rfl⟩
  | returned id id' result =>
    have hmiss : result.cacheHit = false := hh
    rw [afterLookup, lookupUpdate, hmiss]
    exact ⟨rfl, fun r => hits_metric _ r (by rintro ⟨⟩)⟩
  | countRequest o => exact ⟨by cases o <;> rfl, fun r => hits_metric _ r (by rintro ⟨⟩)⟩
  | inflightInc | originFetch | observe | refusedLate | observeAgain | finish =>
    exact ⟨rfl, fun r => hits_metric _ r (by rintro ⟨⟩)⟩
  | observeExemplar => exact ⟨rfl, fun r => hits_metric _ r (by rintro ⟨⟩)⟩
  | raised | refused | healthz | notFound | unprocessable | readChaos | beginUpdate | update |
    updated | copy | answer | flush => exact ⟨rfl, fun _ => rfl⟩

/-- The metrics after a step are updated at most once. -/
theorem metrics_serverStep {a : ServerAct} (hstep : serverStep D w M h a = some (M', h')) :
    M'.metrics = M.metrics ∨ ∃ u : MetricUpdate, M'.metrics =
      Function.update M.metrics (D.replica w) (u.apply (M.metrics (D.replica w))) := by
  rcases serverStep_cases hstep with ⟨last, request, -, -, rfl, -⟩ | ⟨env, -, heff⟩
  · exact Or.inl rfl
  cases heff with
  | inflightInc | returned | originFetch | observe | observeExemplar | refusedLate | observeAgain |
    countRequest | finish => exact Or.inr ⟨_, rfl⟩
  | chaosRead | call | cache | raised | refused | healthz | notFound | unprocessable | readChaos |
    beginUpdate | update | updated | copy | answer | flush => exact Or.inl rfl

/-- The counters of lookups never decrease. -/
theorem lookups_mono {a : ServerAct} (hstep : serverStep D w M h a = some (M', h')) (r : ρ) :
    (M.metrics r).cacheHitsTotal ≤ (M'.metrics r).cacheHitsTotal ∧
      (M.metrics r).cacheMissesTotal ≤ (M'.metrics r).cacheMissesTotal := by
  rcases metrics_serverStep hstep with hM | ⟨u, hM⟩
  · rw [hM]
    exact ⟨le_rfl, le_rfl⟩
  · rw [hM]
    by_cases hr : r = D.replica w
    · subst hr
      rw [Function.update_self]
      cases u <;> simp [MetricUpdate.apply]
    · rw [Function.update_of_ne hr]
      exact ⟨le_rfl, le_rfl⟩

/-! ## The counters in time -/

variable {K : Type*} [Field K] [LinearOrder K] [IsStrictOrderedRing K] [DecidableEq ω]

/-- A count that no step decreases, as it is scraped. -/
theorem monotone_scraped (X : Timed (Pool.step (serverStep D)) K) (r : ρ) {f : Metrics → ℕ}
    (hf : ∀ {w M h a M' h'}, serverStep D w M h a = some (M', h') →
      f (M.metrics r) ≤ f (M'.metrics r)) :
    Monotone fun t => (f ((X.stateAt t).shared.metrics r) : K) :=
  Nat.mono_cast.comp <| X.monotone_at (f := fun s : Server ω ρ => f (s.shared.metrics r))
    fun s e s' he => by
      obtain ⟨M', h', hstep, rfl⟩ := Pool.step_eq_some.1 he
      exact hf hstep

/-- The counters of an execution, as the rules read them. -/
def scraped (X : Timed (Pool.step (serverStep D)) K) : Counters ρ K where
  cacheHitsTotal := fun r t => ((X.stateAt t).shared.metrics r).cacheHitsTotal
  cacheMissesTotal := fun r t => ((X.stateAt t).shared.metrics r).cacheMissesTotal
  monotone_hits := fun r => monotone_scraped X r fun hstep => (lookups_mono hstep r).1
  monotone_misses := fun r => monotone_scraped X r fun hstep => (lookups_mono hstep r).2

/-- After time `F`, Redis answers no call, and no lookup that it answered before is still to be
counted. -/
structure RedisOutage (X : Timed (Pool.step (serverStep D)) K) (F : K) : Prop where
  strict : ∀ r, (D.config r).backend = .redis
  down : ∀ n, F < X.time n → (X.event n).2.RedisDown
  counted : ∀ w, ((X.stateAt F).thread w).mayHit = false

/-- From then on, no hit is counted. -/
theorem RedisOutage.hits {X : Timed (Pool.step (serverStep D)) K} {F : K} (h : RedisOutage X F)
    (r : ρ) {t : K} (ht : F ≤ t) :
    (scraped X).cacheHitsTotal r t = (scraped X).cacheHitsTotal r F := by
  let I : Server ω ρ → Prop := fun s =>
    (∀ w, (s.thread w).mayHit = false) ∧
      (s.shared.metrics r).cacheHitsTotal = ((X.stateAt F).shared.metrics r).cacheHitsTotal
  have hstep : ∀ n, F < X.time n → X.time n ≤ t → I (X.state n) → I (X.state (n + 1)) := by
    rintro n hn - ⟨hmay, hhits⟩
    have hdown := h.down n hn
    have he := X.step_eq n
    rcases hevent : X.event n with ⟨w, a⟩
    rw [hevent] at hdown he
    obtain ⟨M', h', hstep, hnext⟩ := Pool.step_eq_some.1 he
    obtain ⟨hmay', hsame⟩ := hits_serverStep (h.strict _) hdown (hmay w) hstep
    rw [hnext]
    refine ⟨fun v => ?_, (hsame r).trans hhits⟩
    rcases eq_or_ne v w with rfl | hv
    · simpa using hmay'
    · simpa [hv] using hmay v
  have hend : I (X.stateAt t) := X.invariant_from ⟨h.counted, rfl⟩ ht hstep
  exact congrArg Nat.cast hend.2

variable [Fintype ρ]

/-- When no more hits are counted after time `F`, and the replicas together make more than 120
lookups in every two minutes, the alert is firing at all evaluations from four minutes on. -/
theorem firing_of_hits_eq {X : Timed (Pool.step (serverStep D)) K} {F : K}
    (hhits : ∀ r t, F ≤ t → (scraped X).cacheHitsTotal r t = (scraped X).cacheHitsTotal r F)
    (htraffic : ∀ t, F ≤ t → 120 < increase (scraped X).cacheHitsTotal (t + 120) +
      increase (scraped X).cacheMissesTotal (t + 120)) (phase : K) {n : ℕ} (hn : 4 ≤ n)
    (hlate : F + 240 ≤ evaluation phase n) :
    (Hold.run (evaluation phase) (fun k => HitRatioCollapsed (scraped X) (evaluation phase k)) n).Firing
      120 (evaluation phase n) := by
  have houtage : Outage (scraped X) F := by
    refine ⟨hhits, fun t ht => ?_⟩
    have hzero : increase (scraped X).cacheHitsTotal (t + 120) = 0 :=
      Finset.sum_eq_zero fun r _ => by
        have hlater : F ≤ t + 120 := by linarith
        have hstart : F ≤ t + 120 - 120 := by linarith
        rw [hhits r _ hlater, hhits r _ hstart, sub_self]
    have := htraffic t ht
    rwa [hzero, zero_add] at this
  exact (firing_iff_status (scraped X) phase hn).2 (houtage.firing hlate)

/-- **A Redis outage is detected in time.** In every execution of the service with strict replicas:
when Redis answers no call after time `F`, all lookups that it answered before have been counted,
and the replicas together make more than 120 lookups in every two minutes, the alert is firing at
all evaluations from four minutes on, as the rule manager keeps it. -/
theorem outage_detected {X : Timed (Pool.step (serverStep D)) K} {F : K} (h : RedisOutage X F)
    (htraffic : ∀ t, F ≤ t → 120 < increase (scraped X).cacheHitsTotal (t + 120) +
      increase (scraped X).cacheMissesTotal (t + 120)) (phase : K) {n : ℕ} (hn : 4 ≤ n)
    (hlate : F + 240 ≤ evaluation phase n) :
    (Hold.run (evaluation phase) (fun k => HitRatioCollapsed (scraped X) (evaluation phase k)) n).Firing
      120 (evaluation phase n) :=
  firing_of_hits_eq (fun r _ ht => h.hits r ht) htraffic phase hn hlate

/-! ## An outage -/

/-- In a drill of `solo` with four blocks in a second, more than 120 lookups are counted in two
minutes. -/
theorem increase_drill {D : Rollout Unit Unit} (hlib : D.AcceptsExemplars) {id : String} {st : ChaosState}
    (hrate : PyFloat.le st.errorRate (.fin 0) = true) {setup : List (Unit × ServerAct)} {env : ℕ → Env}
    {j : ℕ} {mid : Handling → Prop} {Y : Timed (run (Pool.step (serverStep D))) ℚ}
    {X : Timed (Pool.step (serverStep D)) ℚ} (h : Drill D () id st setup env j mid Y)
    (hX : X.Flattens Y) (htime : ∀ k, Y.time k = k / 4) {t : ℚ} (ht : 0 ≤ t) :
    120 < increase (scraped X).cacheHitsTotal (t + 120) +
      increase (scraped X).cacheMissesTotal (t + 120) := by
  have hlookups : ∀ t, (segmentRequests X (D.replica ()) t : ℚ) ≤
        (scraped X).cacheHitsTotal () t + (scraped X).cacheMissesTotal () t ∧
      (scraped X).cacheHitsTotal () t + (scraped X).cacheMissesTotal () t ≤
        segmentRequests X (D.replica ()) t + 1 := fun t => by
    obtain ⟨-, hlow, hhigh⟩ := (h.counters hX hlib t).2.2 hrate
    simp only [scraped, segmentRequests]
    exact ⟨by exact_mod_cast hlow, by exact_mod_cast hhigh⟩
  have hrequests := (h.requests_rate hX four_pos htime
    (show t ≤ t + 120 by linarith)).2 ht
  obtain ⟨hlow, -⟩ := hlookups (t + 120)
  obtain ⟨-, hhigh⟩ := hlookups t
  simp only [increase, Finset.univ_unique, Finset.sum_singleton, add_sub_cancel_right]
  change _ < (scraped X).cacheHitsTotal () (t + 120) - (scraped X).cacheHitsTotal () t +
    ((scraped X).cacheMissesTotal () (t + 120) - (scraped X).cacheMissesTotal () t)
  linarith

/-- A drill in which Redis goes down. -/
theorem exists_outage : ∃ X : Timed (Pool.step (serverStep solo)) ℚ,
    X.state 0 = boot solo (fun _ => 0) ∧ RedisOutage X 10 ∧ ∀ t, 10 ≤ t →
      120 < increase (scraped X).cacheHitsTotal (t + 120) +
        increase (scraped X).cacheMissesTotal (t + 120) := by
  obtain ⟨Y, X, h, hX, htime⟩ := exists_quarter_drill outageEnv (fun _ => rfl) setsUp_solo
    (List.cons_ne_nil _ _) smooth_solo (Leads.refl _) (by rintro _ rfl; simp [Handling.rank])
  refine ⟨X, h.state_zero hX, ⟨fun _ => rfl, fun n hn env henv => ⟨false, ?_⟩, fun w => ?_⟩, fun t ht =>
    increase_drill acceptsExemplars_solo (by decide +kernel) h hX htime (by linarith)⟩
  · exact h.reply_outageEnv hX htime hn henv
  · rcases h.thread hX 10 with ⟨last, hw⟩ | hw <;> rw [hw] <;> rfl

/-- The alert fires at the first evaluation that is four minutes later. -/
theorem outage_detected_solo : ∃ X : Timed (Pool.step (serverStep solo)) ℚ,
    X.state 0 = boot solo (fun _ => 0) ∧
      (Hold.run (evaluation 0) (fun k => HitRatioCollapsed (scraped X) (evaluation 0 k)) 9).Firing 120
        (evaluation (0 : ℚ) 9) := by
  obtain ⟨X, hboot, houtage, htraffic⟩ := exists_outage
  exact ⟨X, hboot, outage_detected houtage htraffic 0 (by norm_num) (by norm_num [evaluation])⟩

end EdgeCache.Service
