import EdgeCache.Service.RedisDown

/-!
# A bypass is noticed

While the cache of every replica is bypassed, all requests that begin go to the origin and leave the
cache alone, so none of them is a hit, and none calls Redis (`bypass_serverStep`). Under traffic,
the alert on the hit ratio fires within four minutes, as it does in an outage of Redis. But
`redis_up` of each replica stays what it was before, whether Redis can be reached or not: so
`EdgeCacheRedisDown` tells the one from the other, and does not notice if Redis goes down meanwhile
(`bypass_detected`).
-/

namespace EdgeCache.Service

open Alerts Cache Transition

variable {ω ρ : Type*} [DecidableEq ρ] {D : Rollout ω ρ} {w : ω} {M M' : Shared ρ} {h h' : Handling}

/-! ## Requests that use the cache -/

/-- The call may still read the cache or write to it, or has been a hit. -/
def Handling.usesCache : Handling → Bool
  | .cache _ (.resting (some (_, .ok result))) => result.cacheHit
  | .cache _ (.resting _) => false
  | .cache _ (.origin _ bypass) => !bypass
  | .cache _ _ => true
  | _ => false

theorem redisUp_tick (W : World ρ) (r r' : ρ) (now : ℚ) :
    ((W.tick r now).proc r').redisUp = (W.proc r').redisUp := by
  by_cases hr : r' = r
  · subst hr
    simp [World.tick]
  · simp [World.tick, hr]

/-- **A bypassed cache is left alone**, apart from the requests that were in it before: no hit is
counted, and no health is reported. -/
theorem bypass_serverStep (hbypass : (M.chaos (D.replica w)).state.cacheBypass = true) {a : ServerAct}
    (hh : h.usesCache = false) (hstep : serverStep D w M h a = some (M', h')) :
    h'.usesCache = false ∧ ∀ r, (M'.metrics r).cacheHitsTotal = (M.metrics r).cacheHitsTotal ∧
      (M'.world.proc r).redisUp = (M.world.proc r).redisUp := by
  rcases serverStep_cases hstep with ⟨last, request, rfl, rfl, rfl, rfl⟩ | ⟨env, rfl, heff⟩
  · exact ⟨by cases request <;> rfl, fun _ => ⟨rfl, rfl⟩⟩
  cases heff with
  | chaosRead id read =>
    refine ⟨?_, fun _ => ⟨rfl, rfl⟩⟩
    cases read with
    | latencyTest | rateTest | bypass => rfl
    | latencySleep | rateDraw =>
      simp only [afterChaosRead]
      split <;> rfl
  | call id W t hW =>
    rw [hbypass] at hW
    obtain ⟨-, -, rfl, rfl⟩ := fleetStep_getSegment.1 hW
    exact ⟨rfl, fun r => ⟨rfl, redisUp_tick _ _ r _⟩⟩
  | cache id t t' W hW =>
    obtain ⟨-, W₁, hseg, rfl⟩ := fleetStep_go.1 hW
    cases hseg with
    | fetchRaised => exact ⟨rfl, fun r => ⟨rfl, redisUp_tick _ _ r _⟩⟩
    | fetched id' bypass =>
      obtain rfl : bypass = true := by simpa [Handling.usesCache] using hh
      exact ⟨rfl, fun r => ⟨rfl, redisUp_tick _ _ r _⟩⟩
    | lookup | lookupMemory | read | readDone | readMemory | readMemoryDone | write | writeDone |
      writeMemory | writeMemoryDone => cases hh
  | flush body state W t _ hW =>
    obtain ⟨-, -, rfl, -⟩ := fleetStep_flush.1 hW
    exact ⟨rfl, fun r => ⟨rfl, (redisUp_tick _ _ r _).trans (by rw [proc_flush])⟩⟩
  | returned id id' result =>
    have hmiss : result.cacheHit = false := hh
    rw [afterLookup, lookupUpdate, hmiss]
    exact ⟨rfl, fun r => ⟨hits_metric _ r (by rintro ⟨⟩), rfl⟩⟩
  | countRequest o =>
    exact ⟨by cases o <;> rfl, fun r => ⟨hits_metric _ r (by rintro ⟨⟩), rfl⟩⟩
  | inflightInc | originFetch | observe | refusedLate | observeAgain | finish =>
    exact ⟨rfl, fun r => ⟨hits_metric _ r (by rintro ⟨⟩), rfl⟩⟩
  | observeExemplar => exact ⟨rfl, fun r => ⟨hits_metric _ r (by rintro ⟨⟩), rfl⟩⟩
  | raised | refused | healthz | notFound | unprocessable | readChaos | beginUpdate | update |
    updated | copy | answer => exact ⟨rfl, fun _ => ⟨rfl, rfl⟩⟩

/-! ## The bypass in time -/

variable {K : Type*} [Field K] [LinearOrder K] [IsStrictOrderedRing K] [DecidableEq ω]

/-- After time `F`, the cache of every replica is bypassed, and no request is left that uses it. -/
structure Bypassed (X : Timed (Pool.step (serverStep D)) K) (F : K) : Prop where
  cacheBypass : ∀ n, F < X.time n → ∀ r, ((X.state n).shared.chaos r).state.cacheBypass = true
  left : ∀ w, ((X.stateAt F).thread w).usesCache = false

omit [Field K] [IsStrictOrderedRing K] in
/-- From then on, no hit is counted, and no health is reported. -/
theorem Bypassed.same {X : Timed (Pool.step (serverStep D)) K} {F : K} (h : Bypassed X F) (r : ρ) {t : K}
    (ht : F ≤ t) :
    ((X.stateAt t).shared.metrics r).cacheHitsTotal = ((X.stateAt F).shared.metrics r).cacheHitsTotal ∧
      ((X.stateAt t).shared.world.proc r).redisUp = ((X.stateAt F).shared.world.proc r).redisUp := by
  let I : Server ω ρ → Prop := fun s => (∀ w, (s.thread w).usesCache = false) ∧
    (s.shared.metrics r).cacheHitsTotal = ((X.stateAt F).shared.metrics r).cacheHitsTotal ∧
      (s.shared.world.proc r).redisUp = ((X.stateAt F).shared.world.proc r).redisUp
  have hstep : ∀ n, F < X.time n → X.time n ≤ t → I (X.state n) → I (X.state (n + 1)) := by
    rintro n hn - ⟨huses, hhits, hup⟩
    have hbypass := h.cacheBypass n hn
    have he := X.step_eq n
    rcases hevent : X.event n with ⟨w, a⟩
    rw [hevent] at he
    obtain ⟨M', h', hstep, hnext⟩ := Pool.step_eq_some.1 he
    obtain ⟨huses', hsame⟩ := bypass_serverStep (hbypass _) (huses w) hstep
    rw [hnext]
    refine ⟨fun v => ?_, (hsame r).1.trans hhits, (hsame r).2.trans hup⟩
    rcases eq_or_ne v w with rfl | hv
    · simpa using huses'
    · simpa [hv] using huses v
  have hend : I (X.stateAt t) := X.invariant_from ⟨h.left, rfl, rfl⟩ ht hstep
  exact hend.2

variable [Fintype ρ]

/-- **A bypass is noticed, and Redis is not.** In every execution of the service, whatever Redis
does: while the cache of all replicas is bypassed and no request is left that uses it, and the
replicas make more than 120 lookups in every two minutes, `EdgeCacheHitRatioCollapsed` is firing at
all evaluations from four minutes on; and what `EdgeCacheRedisDown` reads stays as it was at first,
on each replica, so its expression does, too. -/
theorem bypass_detected {X : Timed (Pool.step (serverStep D)) K} {F : K} (h : Bypassed X F)
    (htraffic : ∀ t, F ≤ t → 120 < increase (scraped X).cacheHitsTotal (t + 120) +
      increase (scraped X).cacheMissesTotal (t + 120)) (phase : K) :
    (∀ n, 4 ≤ n → F + 240 ≤ evaluation phase n →
      (Hold.run (evaluation phase) (fun k => HitRatioCollapsed (scraped X) (evaluation phase k))
        n).Firing 120 (evaluation phase n)) ∧
      ∀ t, F ≤ t → (∀ r, redisUpScraped X r t = redisUpScraped X r F) ∧
        ((edgeCacheRedisDown (redisUpScraped X) t).isSome ↔
          (edgeCacheRedisDown (redisUpScraped X) F).isSome) := by
  constructor
  · intro n hn hlate
    exact firing_of_hits_eq (fun r t ht => congrArg Nat.cast (h.same r ht).1) htraffic phase hn hlate
  · intro t ht
    have hsame : ∀ r, redisUpScraped X r t = redisUpScraped X r F := fun r =>
      congrArg Nat.cast (h.same r ht).2
    exact ⟨hsame, by simp only [isSome_redisDown, hsame]⟩

/-! ## A bypass -/

/-- A drill in which every request bypasses the cache, and Redis goes down after ten seconds. -/
theorem exists_bypassed : ∃ X : Timed (Pool.step (serverStep soloChaos)) ℚ,
    X.state 0 = boot soloChaos (fun _ => 0) ∧ Bypassed X 0 ∧ redisUpScraped X () 0 = 1 ∧
      (∀ n, 10 < X.time n → (X.event n).2.RedisDown) ∧ ∀ t, 0 ≤ t →
        120 < increase (scraped X).cacheHitsTotal (t + 120) +
          increase (scraped X).cacheMissesTotal (t + 120) := by
  have hD : Drilling.Smooth soloChaos () "ab" { cacheBypass := true } :=
    ⟨not_raises_solo, by decide +kernel⟩
  have hsetup : SetsUp soloChaos { cacheBypass := true }
      (soloHandle (.admin (.set { cacheBypass := some true })) 18) := by decide +kernel
  obtain ⟨Y, X, h, hX, htime⟩ := exists_quarter_drill outageEnv (fun _ => rfl) hsetup
    (List.cons_ne_nil _ _) hD (Leads.refl _) (by rintro _ rfl; simp [Handling.rank])
  refine ⟨X, h.state_zero hX, ⟨fun n hn _ => ?_, fun w => ?_⟩, ?_,
    fun n hn env henv => ⟨false, h.reply_outageEnv hX htime hn henv⟩, fun t ht =>
      increase_drill (D := soloChaos) acceptsExemplars_solo (by decide +kernel) h hX htime ht⟩
  · obtain ⟨m, now, hdrill⟩ := h.drilling_state hX hD (n := n) (by simpa [htime] using hn)
    exact congrArg ChaosState.cacheBypass hdrill.serving.chaos
  · rcases h.thread hX 0 with ⟨last, hw⟩ | hw <;> rw [hw] <;> rfl
  · have hup : (run (Pool.step (serverStep soloChaos)) (boot soloChaos fun _ => 0)
        (soloHandle (.admin (.set { cacheBypass := some true })) 18)).map (fun s =>
          (s.shared.world.proc ()).redisUp) = some 1 := by decide +kernel
    have hstart := Y.step_eq 0
    rw [h.boot, h.setup] at hstart
    rw [hstart] at hup
    have hzero : X.stateAt 0 = Y.state 1 := by simpa using stateAt_quarter hX htime 0
    have hone : ((Y.state 1).shared.world.proc ()).redisUp = 1 := Option.some.inj hup
    rw [redisUpScraped, hzero, hone, Nat.cast_one]

/-- The alert on the hit ratio fires after four minutes, and the gauge of Redis stays up, though
Redis is down. -/
theorem bypass_detected_solo : ∃ X : Timed (Pool.step (serverStep soloChaos)) ℚ,
    X.state 0 = boot soloChaos (fun _ => 0) ∧ (∀ n, 10 < X.time n → (X.event n).2.RedisDown) ∧
      (Hold.run (evaluation 0) (fun k => HitRatioCollapsed (scraped X) (evaluation 0 k)) 8).Firing 120
        (evaluation (0 : ℚ) 8) ∧ redisUpScraped X () 600 = 1 := by
  obtain ⟨X, hboot, hbypass, hup, hdown, htraffic⟩ := exists_bypassed
  obtain ⟨hdetected, hsame⟩ := bypass_detected hbypass htraffic 0
  refine ⟨X, hboot, hdown, hdetected 8 (by norm_num) (by norm_num [evaluation]), ?_⟩
  exact ((hsame 600 (by norm_num)).1 ()).trans hup

end EdgeCache.Service
