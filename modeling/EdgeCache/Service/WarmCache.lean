import EdgeCache.Service.Recovery

/-!
# A warm cache

The alert on the hit ratio is not to fire without need. While Redis answers, and holds the segments
that are asked for, no lookup on any replica is a miss, so no thread writes to Redis, and it goes on
to hold them (`warm_serverStep`). No more misses are counted, and the alert is silent two minutes
later (`warm_cache`).
-/

namespace EdgeCache.Service

open Alerts Breaker Cache Transition

variable {ω ρ : Type*} [DecidableEq ρ] {D : Rollout ω ρ} {w : ω} {M M' : Shared ρ} {h h' : Handling}

/-! ## One step -/

/-- The request is for a segment that Redis holds, or is not going to have it flushed. -/
def Handling.Warm (redis : RedisStore) : Handling → Prop
  | .segment id => (redis (key id)).isSome
  | .chaos id _ => (redis (key id)).isSome
  | .cache _ t => t.Warm redis
  | .admin (.set body) => body.flushes = false
  | .updating body _ => body.flushes = false
  | .asdict (.set body) _ _ => body.flushes = false
  | _ => True

/-- An update of another metric. -/
theorem misses_metric {u : MetricUpdate} (r r' : ρ) (hu : u ≠ .cacheMissesInc) :
    ((M.metric r u).metrics r').cacheMissesTotal = (M.metrics r').cacheMissesTotal :=
  figure_metric (f := Metrics.cacheMissesTotal) r r' fun _ => by
    cases u <;> first | rfl | exact absurd rfl hu

/-- If the step calls Redis, the call returns, and no entry is lost. -/
def ServerAct.RedisKeeps (a : ServerAct) : Prop := ∀ env, a = .go env → env.reply = .answers true

/-- **A warm cache stays warm**: no miss is counted, and Redis is not written to. -/
theorem warm_serverStep (hredis : (D.config (D.replica w)).backend = .redis)
    (hp : Recovered (M.world.proc (D.replica w)).breaker)
    (hbypass : (M.chaos (D.replica w)).state.cacheBypass = false) {a : ServerAct} (ha : a.RedisKeeps)
    (htake : ∀ request, a = .take request → request.start.Warm M.world.redis) (hh : h.Warm M.world.redis)
    (hstep : serverStep D w M h a = some (M', h')) :
    M'.world.redis = M.world.redis ∧ h'.Warm M.world.redis ∧
      ∀ r, (M'.metrics r).cacheMissesTotal = (M.metrics r).cacheMissesTotal := by
  rcases serverStep_cases hstep with ⟨last, request, rfl, rfl, rfl, rfl⟩ | ⟨env, rfl, heff⟩
  · exact ⟨rfl, htake request rfl, fun _ => rfl⟩
  cases heff with
  | inflightInc => exact ⟨rfl, hh, fun r => misses_metric _ r (by rintro ⟨⟩)⟩
  | chaosRead id read =>
    refine ⟨rfl, ?_, fun _ => rfl⟩
    cases read with
    | latencyTest | rateTest | bypass => exact hh
    | latencySleep | rateDraw =>
      simp only [afterChaosRead]
      split
      · trivial
      · exact hh
  | call id W t hW =>
    rw [hbypass] at hW
    obtain ⟨-, -, rfl, rfl⟩ := fleetStep_getSegment.1 hW
    exact ⟨rfl, hh, fun _ => rfl⟩
  | cache id t t' W hW =>
    obtain ⟨-, W₁, hseg, rfl⟩ := fleetStep_go.1 hW
    rw [ha env rfl] at hseg
    obtain ⟨hsame, hwarm⟩ := warm_segmentEffect hredis hp hh hseg
    exact ⟨hsame, hwarm, fun _ => rfl⟩
  | returned id id' result =>
    have hhit : result.cacheHit = true := hh
    rw [afterLookup, lookupUpdate, hhit]
    exact ⟨rfl, trivial, fun r => misses_metric _ r (by rintro ⟨⟩)⟩
  | flush body state W t hflush =>
    exact absurd (hflush.symm.trans hh) (by decide)
  | beginUpdate | update | updated => exact ⟨rfl, hh, fun _ => rfl⟩
  | copy call => exact ⟨rfl, by cases call <;> exact hh, fun _ => rfl⟩
  | countRequest o =>
    exact ⟨rfl, by cases o <;> trivial, fun r => misses_metric _ r (by rintro ⟨⟩)⟩
  | originFetch | observe | refusedLate | observeAgain | finish =>
    exact ⟨rfl, trivial, fun r => misses_metric _ r (by rintro ⟨⟩)⟩
  | observeExemplar => exact ⟨rfl, trivial, fun r => misses_metric _ r (by rintro ⟨⟩)⟩
  | raised | refused | healthz | notFound | unprocessable | readChaos | answer =>
    exact ⟨rfl, trivial, fun _ => rfl⟩

/-! ## The counters in time -/

variable {K : Type*} [Field K] [LinearOrder K] [IsStrictOrderedRing K] [DecidableEq ω]

/-- From time `F` to time `G`, Redis answers all calls and loses no entry, no cache is bypassed or
flushed, and all segments that are asked for are among those that Redis holds at time `F`. -/
structure WarmCache (X : Timed (Pool.step (serverStep D)) K) (F G : K) : Prop where
  strict : ∀ r, (D.config r).backend = .redis
  keeps : ∀ n, F < X.time n → X.time n ≤ G → (X.event n).2.RedisKeeps
  cacheBypass : ∀ n, F < X.time n → X.time n ≤ G → ∀ r,
    ((X.state n).shared.chaos r).state.cacheBypass = false
  asked : ∀ n, F < X.time n → X.time n ≤ G → ∀ request, (X.event n).2 = .take request →
    request.start.Warm (X.stateAt F).shared.world.redis
  healthy : Healthy (X.stateAt F)
  /-- The misses from before have been counted. -/
  counted : ∀ w, ((X.stateAt F).thread w).Warm (X.stateAt F).shared.world.redis

variable {X : Timed (Pool.step (serverStep D)) K} {F G : K}

/-- Meanwhile, no miss is counted. -/
theorem WarmCache.misses (h : WarmCache X F G) (r : ρ) {t : K} (hF : F ≤ t) (hG : t ≤ G) :
    (scraped X).cacheMissesTotal r t = (scraped X).cacheMissesTotal r F := by
  let redis := (X.stateAt F).shared.world.redis
  let I : Server ω ρ → Prop := fun s => Healthy s ∧ s.shared.world.redis = redis ∧
    (∀ w, (s.thread w).Warm redis) ∧ (s.shared.metrics r).cacheMissesTotal =
      ((X.stateAt F).shared.metrics r).cacheMissesTotal
  have hstep : ∀ n, F < X.time n → X.time n ≤ t → I (X.state n) → I (X.state (n + 1)) := by
    rintro n hn hnt ⟨hhealthy, hredis, hwarm, hmisses⟩
    have hkeeps := h.keeps n hn (hnt.trans hG)
    have hbypass := h.cacheBypass n hn (hnt.trans hG)
    have hasked := h.asked n hn (hnt.trans hG)
    have hhealthy' : Healthy (X.state (n + 1)) :=
      healthy_step hhealthy (fun env henv => ⟨true, hkeeps env henv⟩) (X.step_eq n)
    have he := X.step_eq n
    rcases hevent : X.event n with ⟨w, a⟩
    rw [hevent] at hkeeps hasked he
    obtain ⟨M', h', hstep, hnext⟩ := Pool.step_eq_some.1 he
    obtain ⟨hredis', hwarm', hsame⟩ := warm_serverStep (h.strict _) (hhealthy.recovered _) (hbypass _)
      hkeeps (hredis.symm ▸ hasked) (hredis.symm ▸ hwarm w) hstep
    refine ⟨hhealthy', ?_, fun v => ?_, ?_⟩
    · rw [hnext]
      exact hredis'.trans hredis
    · rw [hnext]
      rcases eq_or_ne v w with rfl | hv
      · simpa [hredis] using hwarm'
      · simpa [hv] using hwarm v
    · rw [hnext]
      exact (hsame r).trans hmisses
  have hend : I (X.stateAt t) := X.invariant_from ⟨h.healthy, rfl, h.counted, rfl⟩ hF hstep
  exact congrArg Nat.cast hend.2.2.2

variable [Fintype ρ]

/-- **A warm cache raises no alert.** In every execution of the service with strict replicas: while
Redis answers and holds what is asked for, once the misses from before have been counted, no miss is
counted on any replica, and from two minutes on `EdgeCacheHitRatioCollapsed` is not firing, whatever
the traffic. -/
theorem warm_cache (h : WarmCache X F G) :
    (∀ r t, F ≤ t → t ≤ G → (scraped X).cacheMissesTotal r t = (scraped X).cacheMissesTotal r F) ∧
      ∀ phase n, F + 120 ≤ evaluation phase n → evaluation phase n ≤ G →
        ¬ (Hold.run (evaluation phase) (fun k => HitRatioCollapsed (scraped X) (evaluation phase k))
          n).Firing 120 (evaluation phase n) := by
  refine ⟨fun r t => h.misses r, fun phase n hn hG hfiring => ?_⟩
  obtain ⟨m, hm, -, hexpr⟩ := (Hold.firing_run_iff (monotone_evaluation phase)).1 hfiring
  obtain ⟨hless, -⟩ := (hitRatioCollapsed_iff _ _).1 (hexpr n hm le_rfl)
  have hmisses : increase (scraped X).cacheMissesTotal (evaluation phase n) = 0 :=
    Finset.sum_eq_zero fun r _ => by
      have hlater : F ≤ evaluation phase n := by linarith
      have hstart : F ≤ evaluation phase n - 120 := by linarith
      rw [h.misses r hlater hG, h.misses r hstart (by linarith), sub_self]
  have hhits : 0 ≤ increase (scraped X).cacheHitsTotal (evaluation phase n) :=
    Finset.sum_nonneg fun r _ => sub_nonneg.2 ((scraped X).monotone_hits r (by linarith))
  rw [hmisses] at hless
  exact absurd hless (not_lt.2 hhits)

/-! ## A warm replica -/

/-- When the segment has been written to Redis, two more lookups are made, of one segment. -/
theorem exists_warm : ∃ X : Timed (Pool.step (serverStep solo)) ℚ, WarmCache X (-2) 300 := by
  obtain ⟨s₁, s₂, s₃, s₄, h₁, h₂, h₃, h₄, ⟨hranks, -, hrecovered, hup, hheld⟩, hlast₂, hlast₄⟩ :=
    exists_recovering
  have hrank₂ := hranks s₂ (by simp)
  have hrank₃ := hranks s₃ (by simp)
  have hreach : Reachable (Pool.step (serverStep solo)) (boot solo fun _ => 0) s₂ :=
    Reachable.trans ⟨_, h₁⟩ (reachable_lookupAt h₂)
  obtain ⟨response, hidle⟩ := Handling.lastSegment_eq_some.1 hlast₄
  obtain ⟨response₂, hidle₂⟩ := Handling.lastSegment_eq_some.1 hlast₂
  obtain ⟨X₄, rfl, htime₄, hX₄⟩ := exists_asking hidle
  obtain ⟨X₃, rfl, htime₃, hX₃, -⟩ := exists_lookup hX₄ h₄ (by norm_num) htime₄.ge hrank₃
  obtain ⟨X, rfl, htime, hX, -⟩ := exists_lookup hX₃ h₃ (by norm_num) (by linarith) hrank₂
  have hstart : X.stateAt (-2) = X.state 0 := X.stateAt_of_lt (by linarith)
  have hoff : ¬ solo.ChaosOn () := by decide +kernel
  refine ⟨X, ⟨fun _ => rfl, fun n hn _ env henv => ?_, fun n _ _ r => ?_,
    fun n _ _ request hrequest => ?_, ?_, fun w => ?_⟩⟩
  · exact (hX.go henv).2.trans (if_pos (by linarith))
  · obtain ⟨q, -, hM, -⟩ := refines_fleet (hreach.trans (X.reachable n))
    rw [hM.chaosOff r hoff]
    rfl
  · have hn' := hX.events n
    rw [hrequest] at hn'
    rw [hstart]
    rcases hn' with rfl | rfl
    · exact hheld
    · trivial
  · rw [hstart]
    refine ⟨fun _ => hrecovered, fun _ => hup, fun w => ?_⟩
    rw [hidle₂]
    rintro ⟨⟩
  · rw [hstart, hidle₂]
    trivial

/-- Its misses stay what they were, and the alert is silent. -/
theorem warm_cache_solo : ∃ X : Timed (Pool.step (serverStep solo)) ℚ,
    (scraped X).cacheMissesTotal () 300 = (scraped X).cacheMissesTotal () (-2) ∧
      ¬ (Hold.run (evaluation (0 : ℚ)) (fun k => HitRatioCollapsed (scraped X) (evaluation 0 k))
        4).Firing 120 (evaluation (0 : ℚ) 4) := by
  obtain ⟨X, hX⟩ := exists_warm
  obtain ⟨hmisses, hsilent⟩ := warm_cache hX
  refine ⟨X, hmisses () 300 (by norm_num) le_rfl, hsilent 0 4 ?_ ?_⟩ <;> norm_num [evaluation]

end EdgeCache.Service
