import EdgeCache.Cache.Replica

/-!
# The gauge of the breaker

The breaker sets `redis_circuit_state` whenever it changes its state, so the gauge always shows the
state of the breaker (`Published`). What `Cache.breaker_state` returns is the state of the breaker
only where the breaker is consulted: with a Redis client, and with `REDIS_CB_ENABLED`. A breaker
that is not consulted should then stay CLOSED. In memory mode it does, since no call ever reaches it
(`idle_of_memory`). With the switch off it does not: `_read` and `_write` record the outcomes of
their calls all the same, and `REDIS_CB_FAIL_THRESHOLD` failures in a row open it.

So the two agree exactly when the breaker is consulted, or unused, or has counted fewer failures
than the threshold (`circuitStateAgrees_iff`).
-/

namespace EdgeCache.Breaker

namespace CircuitBreaker

/-- The gauge shows the state of the breaker. -/
def Published (b : CircuitBreaker) : Prop := b.redisCircuitState = cbStateValue b.state

theorem published_publish (b : CircuitBreaker) : b.publish.Published := rfl

theorem published_init : init.Published := rfl

namespace Published

variable {b : CircuitBreaker} (h : b.Published) (cfg : Settings) (now : ℚ)

include h

theorem allow : (b.allow cfg now).2.Published := by
  simp only [CircuitBreaker.allow]
  split
  · exact h
  · split_ifs
    · exact published_publish _
    · exact h
  · split_ifs <;> exact h

theorem recordSuccess : b.recordSuccess.Published := by
  simp only [CircuitBreaker.recordSuccess]
  split_ifs
  · exact published_publish _
  · exact h

theorem recordFailure : (b.recordFailure cfg now).Published := by
  simp only [CircuitBreaker.recordFailure]
  split_ifs
  · exact published_publish _
  · exact h

end Published

end CircuitBreaker

theorem cbStateValue_injective : Function.Injective cbStateValue := by
  intro a b h
  cases a <;> cases b <;> first | rfl | cases h

end EdgeCache.Breaker

namespace EdgeCache.Cache

open Breaker CircuitBreaker Transition

variable {ν : Type*} {ω ρ : Type*} {D : Deployment ω ρ} {W W' : World ρ} {r : ρ} {now : ℚ}

/-! ## What the processes publish -/

theorem published_guardStep {cfg : Config} {reply : Option ν} {p p' : Proc} {g g' : Guard ν}
    (hp : p.breaker.Published) (h : guardStep cfg now reply p g = some (p', g')) :
    p'.breaker.Published := by
  cases g with
  | allow =>
    simp only [guardStep] at h
    split_ifs at h
    · have hallow := hp.allow cfg.breaker now
      split at h <;> next hb =>
        obtain ⟨rfl, rfl⟩ := Prod.mk.inj (Option.some.inj h)
        rwa [hb] at hallow
    · obtain ⟨rfl, rfl⟩ := Prod.mk.inj (Option.some.inj h)
      exact hp
  | redis =>
    simp only [guardStep] at h
    split at h <;> obtain ⟨rfl, rfl⟩ := Prod.mk.inj (Option.some.inj h) <;> exact hp
  | success v =>
    obtain ⟨rfl, rfl⟩ := Prod.mk.inj (Option.some.inj h)
    exact hp.recordSuccess
  | failure =>
    obtain ⟨rfl, rfl⟩ := Prod.mk.inj (Option.some.inj h)
    exact hp.recordFailure _ _
  | setOk | setUp | countError =>
    obtain ⟨rfl, rfl⟩ := Prod.mk.inj (Option.some.inj h)
    exact hp
  | done => cases h

theorem ReplicaEffect.published {c : Config} {p p' : Proc} {g g' : Guard Unit}
    (hp : p.breaker.Published) (h : ReplicaEffect c p now g p' g') : p'.breaker.Published := by
  cases h with
  | outside | start => exact hp
  | step _ reply q hq =>
    have hq' := published_guardStep hp hq
    exact hq'

/-- A worker that stays out of the calls behind the breaker leaves the breaker alone. -/
theorem ReplicaEffect.breaker_eq {c : Config} {p p' : Proc} {g g' : Guard Unit}
    (h : ReplicaEffect c p now g p' g') (hg : g.rank = 0) (hg' : g'.rank = 0) :
    p'.breaker = p.breaker := by
  cases h with
  | outside => rfl
  | start => cases hg'
  | step _ reply q hq =>
    have := rank_pos_of_guardStep hq
    omega

variable [DecidableEq ρ]

/-- A worker of a replica in memory mode stays out of the calls behind the breaker. -/
theorem rank_guard_of_memory (hr : (D.config r).backend = .memory) {t t' : Worker}
    (h : FleetEffect D r now W t W' t') (ht : t.guard.rank = 0) : t'.guard.rank = 0 := by
  cases h with
  | call last id bypass => cases bypass <;> rfl
  | flush => rfl
  | go reply elapsed heff =>
    cases heff with
    | lookup id hb => cases hr.symm.trans hb
    | read id span g g' _ hq | write id data e g g' _ hq =>
      obtain ⟨p, hq, -⟩ := guard_eq_some.1 hq
      have := rank_pos_of_guardStep hq
      simp [Worker.guard] at ht
      omega
    | readDone | readMemoryDone => exact guard_afterRead _ _
    | fetched =>
      simp only [afterFetch, hr]
      split_ifs <;> rfl
    | lookupMemory | readMemory | writeMemory | fetchRaised | writeDone | writeMemoryDone => rfl

/-- What the breakers of the replicas keep to. -/
structure Gauged (D : Deployment ω ρ) (W : World ρ) : Prop where
  published : ∀ r, (W.proc r).breaker.Published
  memory : ∀ r, (D.config r).backend = .memory → (W.proc r).breaker = CircuitBreaker.init

/-- In memory mode, no worker is in a call behind the breaker. -/
def Worker.Outside (D : Deployment ω ρ) (r : ρ) (t : Worker) : Prop :=
  (D.config r).backend = .memory → t.guard.rank = 0

theorem gauged_fleetStep {w : ω} {t t' : Worker} {a : FleetAct} (hW : Gauged D W)
    (ht : t.Outside D (D.replica w)) (h : fleetStep D w W t a = some (W', t')) :
    Gauged D W' ∧ t'.Outside D (D.replica w) := by
  obtain ⟨-, hothers, hown⟩ := proc_fleetStep h
  obtain ⟨-, W₁, -, heff⟩ := fleetStep_effect h
  have ht' : t'.Outside D (D.replica w) := fun hr => rank_guard_of_memory hr heff (ht hr)
  refine ⟨⟨fun r => ?_, fun r hr => ?_⟩, ht'⟩
  · rcases eq_or_ne r (D.replica w) with rfl | hne
    · exact hown.published (hW.published _)
    · rw [hothers r hne]
      exact hW.published r
  · rcases eq_or_ne r (D.replica w) with rfl | hne
    · rw [hown.breaker_eq (ht hr) (ht' hr)]
      exact hW.memory _ hr
    · rw [hothers r hne]
      exact hW.memory r hr

omit [DecidableEq ρ] in
theorem gauged_launch (t₀ : ρ → ℚ) : Gauged D (launch D t₀).shared := by
  have hinit : ∀ r, ((launch D t₀).shared.proc r).breaker = CircuitBreaker.init := fun r => by
    simp only [launch, procInit]
    split <;> rfl
  exact ⟨fun r => (hinit r).symm ▸ published_init, fun r _ => hinit r⟩

variable [DecidableEq ω]

theorem gauged_run {t₀ : ρ → ℚ} {s : Fleet ω ρ}
    (h : Reachable (Pool.step (fleetStep D)) (launch D t₀) s) : Gauged D s.shared := by
  have hstable : Pool.Stable (fleetStep D) (fun _ _ _ => True) (Gauged D)
      fun w _ t => t.Outside D (D.replica w) :=
    ⟨fun _ hW ht he => gauged_fleetStep hW ht he, fun _ _ _ _ _ hu _ => hu⟩
  exact (hstable.reachable ⟨gauged_launch t₀, fun _ _ => rfl⟩ h).1

/-- The gauge always shows the state of the breaker. -/
theorem published_replica {t₀ : ρ → ℚ} {s : Fleet ω ρ}
    (h : Reachable (Pool.step (fleetStep D)) (launch D t₀) s) (r : ρ) :
    (s.shared.proc r).breaker.Published := (gauged_run h).published r

/-- In memory mode the breaker stays as it was made. -/
theorem idle_of_memory {t₀ : ρ → ℚ} {s : Fleet ω ρ}
    (h : Reachable (Pool.step (fleetStep D)) (launch D t₀) s) {r : ρ}
    (hr : (D.config r).backend = .memory) : (s.shared.proc r).breaker = CircuitBreaker.init :=
  (gauged_run h).memory r hr

/-- The breaker of every replica is well formed, used or not. -/
theorem wellFormed_breaker {t₀ : ρ → ℚ} {s : Fleet ω ρ}
    (h : Reachable (Pool.step (fleetStep D)) (launch D t₀) s) (r : ρ) :
    WellFormed (D.config r).guard.breaker (s.shared.proc r).breaker := by
  cases hb : (D.config r).backend with
  | redis => exact wellFormed_replica hb h
  | memory =>
    rw [idle_of_memory h hb]
    exact WellFormed.init _

/-! ## The gauge and `breaker_state` -/

/-- A call of `_read` or `_write` is skipped, until the cooldown has elapsed. -/
def Skipping (c : Config) (p : Proc) : Prop :=
  ∀ (now : ℚ) (reply : Option Unit), ¬ c.breaker.Elapsed p.breaker.openedAt now →
    guardStep c now reply p .allow = some (p, .setOk .skipped)

theorem skipping_of_opened {c : Config} {p : Proc} (hcb : c.cbEnabled = true)
    (hp : p.breaker.state = .opened) : Skipping c p := fun now reply he => by
  simp only [guardStep, hcb, if_true, allow_of_not_elapsed _ _ _ hp he]

/-- The gauge shows what `breaker_state` returns, and OPEN only while calls are being skipped. -/
structure CircuitStateAgrees (c : Replica) (p : Proc) : Prop where
  gauge : p.breaker.redisCircuitState = cbStateValue (breakerState c p)
  skipping : p.breaker.redisCircuitState = cbStateValue .opened → Skipping c.guard p

/-- **The gauge and `breaker_state` are the same fact exactly while the breaker is consulted or has
not been opened.** -/
theorem circuitStateAgrees_iff {t₀ : ρ → ℚ} {s : Fleet ω ρ}
    (h : Reachable (Pool.step (fleetStep D)) (launch D t₀) s) (r : ρ) :
    CircuitStateAgrees (D.config r) (s.shared.proc r) ↔
      (D.config r).backend = .memory ∨ (D.config r).guard.cbEnabled = true ∨
        ((s.shared.proc r).breaker.failures : ℤ) < (D.config r).guard.breaker.threshold := by
  have hpub : (s.shared.proc r).breaker.redisCircuitState =
      cbStateValue (s.shared.proc r).breaker.state := published_replica h r
  cases hb : (D.config r).backend with
  | memory =>
    have hclosed : (s.shared.proc r).breaker.state = .closed := by rw [idle_of_memory h hb]; rfl
    rw [hclosed] at hpub
    refine iff_of_true ⟨?_, fun ho => ?_⟩ (Or.inl rfl)
    · rw [hpub, breakerState, hb]
    · cases cbStateValue_injective (hpub.symm.trans ho)
  | redis =>
    cases hcb : (D.config r).guard.cbEnabled with
    | true =>
      refine iff_of_true ⟨?_, fun ho => ?_⟩ (Or.inr (Or.inl rfl))
      · simp [breakerState, hb, hcb, hpub]
      · exact skipping_of_opened hcb (cbStateValue_injective (hpub.symm.trans ho))
    | false =>
      have hclosed := (wellFormed_breaker h r).closed_iff
      have hstate : breakerState (D.config r) (s.shared.proc r) = .closed := by
        simp [breakerState, hb, hcb]
      simp only [reduceCtorEq, Bool.false_eq_true, false_or, ← hclosed]
      constructor
      · intro hagrees
        have := hagrees.gauge
        rw [hpub, hstate] at this
        exact cbStateValue_injective this
      · intro hs
        rw [hs] at hpub
        exact ⟨hpub.trans (by rw [hstate]), fun ho => by
          cases cbStateValue_injective (hpub.symm.trans ho)⟩

/-- A strict replica with a threshold of 3 and a cooldown of 5, for either value of
`REDIS_CB_ENABLED`. -/
def withBreaker (cbEnabled : Bool) : Deployment ℕ ℕ where
  replica := fun _ => 0
  config := fun _ => ⟨.redis, ⟨cbEnabled, Settings.init 3 (.fin 5)⟩, 60, .fin (3 / 20)⟩
  segmentSizeBytes := 4
  sleepLimit := 1000

/-- A request finds Redis down, and fails to read and to write; so does the read of the next one. -/
def threeErrors : List (ℕ × FleetAct) :=
  [(0, ⟨0, .getSegment "a" false⟩)] ++ List.replicate 16 (0, ⟨1, .go (.raises false) (3 / 20)⟩) ++
    [(0, ⟨2, .getSegment "a" false⟩)] ++ List.replicate 4 (0, ⟨3, .go (.raises false) 0⟩)

/-- With the breaker enabled, both then say OPEN. -/
theorem circuitStateAgrees_of_enabled : ∃ s,
    run (Pool.step (fleetStep (withBreaker true))) (launch (withBreaker true) fun _ => 0)
        threeErrors = some s ∧
      breakerState ((withBreaker true).config 0) (s.shared.proc 0) = .opened ∧
      CircuitStateAgrees ((withBreaker true).config 0) (s.shared.proc 0) := by
  obtain ⟨s, hs, hobs⟩ := Option.map_eq_some_iff.1 (show
    (run (Pool.step (fleetStep (withBreaker true))) (launch (withBreaker true) fun _ => 0)
      threeErrors).map (fun s => breakerState ((withBreaker true).config 0) (s.shared.proc 0)) =
      some .opened by decide +kernel)
  exact ⟨s, hs, hobs, (circuitStateAgrees_iff ⟨threeErrors, hs⟩ 0).2 (Or.inr (Or.inl rfl))⟩

/-- With the breaker disabled, the gauge then reads 2 while `breaker_state` returns CLOSED, and the
calls are not skipped. -/
theorem gauge_opened_of_disabled : ∃ s,
    run (Pool.step (fleetStep (withBreaker false))) (launch (withBreaker false) fun _ => 0)
        threeErrors = some s ∧
      (s.shared.proc 0).breaker.redisCircuitState = cbStateValue .opened ∧
      breakerState ((withBreaker false).config 0) (s.shared.proc 0) = .closed ∧
      ¬ CircuitStateAgrees ((withBreaker false).config 0) (s.shared.proc 0) ∧
      ¬ Skipping ((withBreaker false).config 0).guard (s.shared.proc 0) := by
  obtain ⟨s, hs, hobs⟩ := Option.map_eq_some_iff.1 (show
    (run (Pool.step (fleetStep (withBreaker false))) (launch (withBreaker false) fun _ => 0)
      threeErrors).map (fun s => ((s.shared.proc 0).breaker.redisCircuitState,
        (s.shared.proc 0).breaker.openedAt,
        breakerState ((withBreaker false).config 0) (s.shared.proc 0))) =
      some (2, 3, .closed) by decide +kernel)
  obtain ⟨hgauge, hopened, hstate⟩ := by simpa using hobs
  refine ⟨s, hs, hgauge, hstate, fun hagrees => ?_, fun hskip => ?_⟩
  · have := hagrees.gauge
    rw [hgauge, hstate] at this
    cases this
  have hnow : ¬ (Settings.init 3 (.fin 5)).Elapsed (s.shared.proc 0).breaker.openedAt 4 := by
    rw [hopened]
    decide +kernel
  have := hskip 4 none hnow
  simp [guardStep, withBreaker] at this

end EdgeCache.Cache
