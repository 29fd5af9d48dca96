import EdgeCache.Cache.Gauge

/-!
# Starting a replica

`Cache.__init__`, with the environment variables that it reads and the one `ping` that it may make.
A replica is in memory mode when the Redis client is not installed, or when the fallback is allowed
and Redis does not answer the ping; in all other cases it is strict (`Startup.backend_init`). Its
process is then as the runs of `EdgeCache.Cache.Fleet` begin (`Startup.init_eq`).

The mode lasts: in every run, the in-memory store of a strict replica stays empty, so that no outage
of Redis is masked by it, and nothing happens to the process of a replica in memory mode
(`inMode_run`).
-/

namespace EdgeCache.Cache

open Breaker Transition

/-! ## The constructor -/

/-- `os.getenv(name, default).lower() in ("1", "true", "yes")`. -/
def envSwitch (default : String) (var : Option String) : Bool :=
  (var.getD default).toLower ∈ ["1", "true", "yes"]

/-- `_fallback_allowed`, for the value of `CACHE_MEMORY_FALLBACK`. -/
def fallbackAllowed (var : Option String) : Bool := envSwitch "false" var

/-- `_cb_enabled`, for the value of `REDIS_CB_ENABLED`. -/
def cbEnabled (var : Option String) : Bool := envSwitch "true" var

/-- What the constructor depends on. -/
structure Startup where
  /-- The module `redis` could be imported. -/
  redisInstalled : Bool
  /-- The argument `allow_fallback`. -/
  allowFallback : Option Bool
  cacheMemoryFallback : Option String
  redisCbEnabled : Option String
  cbFailThreshold : ℤ
  cbCooldownSeconds : PyFloat
  segmentTtlSeconds : ℤ
  originLatencySeconds : PyFloat
  /-- What `client.ping()` returns, unless it raises. -/
  pong : Option Bool

/-- `_ping` with a client. -/
def Startup.ping (u : Startup) : Bool := u.pong.getD false

/-- `self.allow_fallback`. -/
def Startup.allowsFallback (u : Startup) : Bool :=
  match u.allowFallback with
  | none => fallbackAllowed u.cacheMemoryFallback
  | some allowed => allowed

/-- The replica with backend `b`. -/
def Startup.replica (u : Startup) (b : Backend) : Replica where
  backend := b
  guard := ⟨cbEnabled u.redisCbEnabled, Settings.init u.cbFailThreshold u.cbCooldownSeconds⟩
  segmentTtlSeconds := u.segmentTtlSeconds
  originLatencySeconds := u.originLatencySeconds

/-- `Cache.__init__`, when the clock reads `t`. -/
def Startup.init (u : Startup) (t : ℚ) : Replica × Proc :=
  let p : Proc :=
    { breaker := CircuitBreaker.init
      lastRedisOk := false
      redisUp := 0
      redisErrorsTotal := 0
      clock := t }
  if u.redisInstalled then
    if u.allowsFallback then
      if u.ping then (u.replica .redis, { p with lastRedisOk := true, redisUp := 1 })
      else (u.replica .memory, { p with redisUp := 0 })
    else (u.replica .redis, { p with lastRedisOk := true, redisUp := 1 })
  else (u.replica .memory, { p with redisUp := 0 })

/-- When a replica is in memory mode. -/
theorem Startup.backend_init (u : Startup) (t : ℚ) : (u.init t).1.backend = .memory ↔
    u.redisInstalled = false ∨ (u.allowsFallback = true ∧ u.ping = false) := by
  unfold Startup.init
  cases u.redisInstalled <;> cases u.allowsFallback <;> cases u.ping <;> simp [Startup.replica]

/-- **The process of a new replica is the one of its mode.** -/
theorem Startup.init_eq (u : Startup) (t : ℚ) :
    u.init t = (u.replica (u.init t).1.backend, procInit (u.init t).1.backend t) := by
  unfold Startup.init
  cases u.redisInstalled <;> cases u.allowsFallback <;> cases u.ping <;> rfl

/-! ## The mode lasts -/

variable {ω ρ : Type*} {D : Deployment ω ρ} {W W' : World ρ} {r : ρ} {now : ℚ}

/-- The worker is in a call of the in-memory store. -/
def Worker.inMemory : Worker → Bool
  | .readingMemory _ _ _ => true
  | .writingMemory _ _ _ _ => true
  | _ => false

/-- A worker of replica `r` uses the backend of its mode. -/
structure Worker.InMode (D : Deployment ω ρ) (r : ρ) (t : Worker) : Prop where
  strict : (D.config r).backend = .redis → t.inMemory = false
  outside : t.Outside D r

/-- The stores and the processes are as the modes of the replicas leave them. -/
structure World.InMode (D : Deployment ω ρ) (W : World ρ) : Prop where
  strict : ∀ r, (D.config r).backend = .redis → W.memory r = fun _ => none
  memory : ∀ r, (D.config r).backend = .memory → ∃ t, W.proc r = procInit .memory t

/-- A worker that stays out of the calls behind the breaker sets at most the clock. -/
theorem ReplicaEffect.eq_of_outside {c : Config} {p p' : Proc} {g g' : Guard Unit}
    (h : ReplicaEffect c p now g p' g') (hg : g.rank = 0) (hg' : g'.rank = 0) :
    p' = { p with clock := now } := by
  cases h with
  | outside => rfl
  | start => cases hg'
  | step _ reply q hq =>
    have := rank_pos_of_guardStep hq
    omega

variable [DecidableEq ρ]

/-- A worker of a strict replica leaves the in-memory stores alone. -/
theorem memory_of_strict (hredis : (D.config r).backend = .redis) {t t' : Worker}
    (ht : t.inMemory = false) (h : FleetEffect D r now W t W' t') :
    W'.memory = W.memory ∧ t'.inMemory = false := by
  cases h with
  | call last id bypass => cases bypass <;> exact ⟨rfl, rfl⟩
  | flush => exact ⟨by simp only [World.flush, hredis], rfl⟩
  | go reply elapsed heff =>
    cases heff with
    | lookupMemory id hmemory => cases hredis.symm.trans hmemory
    | read id span g g' W' hq | write id data e g g' W' hq =>
      obtain ⟨p, -, rfl⟩ := guard_eq_some.1 hq
      exact ⟨rfl, rfl⟩
    | readDone id span o => exact ⟨rfl, by cases o.value.join <;> rfl⟩
    | fetched id bypass data =>
      refine ⟨rfl, ?_⟩
      simp only [afterFetch, hredis]
      split <;> rfl
    | readMemory | readMemoryDone | writeMemory | writeMemoryDone => cases ht
    | lookup | fetchRaised | writeDone => exact ⟨rfl, rfl⟩

/-- A worker of a replica in memory mode changes the in-memory store of no other replica. -/
theorem memory_of_ne {w : ω} {t t' : Worker} {a : FleetAct}
    (h : fleetStep D w W t a = some (W', t')) (hr : r ≠ D.replica w) : W'.memory r = W.memory r := by
  obtain ⟨-, W₁, rfl, heff⟩ := fleetStep_effect h
  cases heff with
  | call => rfl
  | flush last reply =>
    simp only [World.tick, World.flush]
    split
    · rfl
    · simp [hr]
  | go reply elapsed heff =>
    cases heff with
    | read id span g g' W' hq | write id data e g g' W' hq =>
      obtain ⟨p, -, rfl⟩ := guard_eq_some.1 hq
      rfl
    | readMemory id span m m' W' hq | writeMemory id data e m m' W' hq =>
      obtain ⟨M, -, rfl⟩ := inMemory_eq_some.1 hq
      simp [World.tick, hr]
    | lookup | lookupMemory | readDone | readMemoryDone | fetchRaised | fetched | writeDone |
      writeMemoryDone => rfl

theorem inMode_fleetStep {w : ω} {t t' : Worker} {a : FleetAct} (hW : W.InMode D)
    (ht : t.InMode D (D.replica w)) (h : fleetStep D w W t a = some (W', t')) :
    W'.InMode D ∧ t'.InMode D (D.replica w) := by
  obtain ⟨-, hothers, hown⟩ := proc_fleetStep h
  obtain ⟨-, W₁, hW', heff⟩ := fleetStep_effect h
  have hstrict : (D.config (D.replica w)).backend = .redis →
      W₁.memory = W.memory ∧ t'.inMemory = false := fun hr => memory_of_strict hr (ht.strict hr) heff
  have houtside : t'.Outside D (D.replica w) := fun hr => rank_guard_of_memory hr heff (ht.outside hr)
  refine ⟨⟨fun r hr => ?_, fun r hr => ?_⟩, fun hr => (hstrict hr).2, houtside⟩
  · rcases eq_or_ne r (D.replica w) with rfl | hne
    · rw [hW']
      exact (congrFun (hstrict hr).1 _).trans (hW.strict _ hr)
    · rw [memory_of_ne h hne]
      exact hW.strict r hr
  · rcases eq_or_ne r (D.replica w) with rfl | hne
    · obtain ⟨u, hu⟩ := hW.memory _ hr
      refine ⟨a.now, ?_⟩
      rw [hown.eq_of_outside (ht.outside hr) (houtside hr), hu]
      rfl
    · rw [hothers r hne]
      exact hW.memory r hr

variable [DecidableEq ω]

/-- **A replica stays in its mode**: in every run, the in-memory store of a strict replica is empty,
and the process of a replica in memory mode is as the constructor left it. -/
theorem inMode_run {t₀ : ρ → ℚ} {s : Fleet ω ρ}
    (h : Reachable (Pool.step (fleetStep D)) (launch D t₀) s) : s.shared.InMode D := by
  have hstable : Pool.Stable (fleetStep D) (fun _ _ _ => True) (World.InMode D)
      fun w _ t => t.InMode D (D.replica w) :=
    ⟨fun _ hW ht he => inMode_fleetStep hW ht he, fun _ _ _ _ _ hu _ => hu⟩
  have hworld : (launch D t₀).shared.InMode D := by
    refine ⟨fun _ _ => rfl, fun r hr => ⟨t₀ r, ?_⟩⟩
    simp only [launch, hr]
  exact (hstable.reachable ⟨hworld, fun _ => ⟨fun _ => rfl, fun _ => rfl⟩⟩ h).1

end EdgeCache.Cache
