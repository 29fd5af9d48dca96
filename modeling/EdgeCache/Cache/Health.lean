import EdgeCache.Cache.Guard

/-!
# The health that the process reports

When no `_read` or `_write` is in progress, `redis_up` and `_last_redis_ok` are meant to agree with
each other and with the breaker: both say that Redis is up exactly while the breaker is CLOSED and
has counted no failure, so that an open breaker never masks the outage (`Visible`).

The breaker call and the two writes are separate steps, so a worker can write the verdict of a call
that others have since overtaken (`stale_success_masks_outage`). The health is right when no such
write is left uncorrected, that is, when every write agrees with the breaker at the moment it is
made or another worker is yet to make one that does (`FreshWrites`, `visible_of_freshWrites`). The
invariant (`Tracked`) is that each of the two fields either agrees with the breaker, or is about to
be written by a worker whose verdict does.
-/

namespace EdgeCache.Cache

open Breaker Transition

variable {ω ν : Type*}

/-- No `_read` or `_write` is in progress. -/
def Quiescent (s : Workers ω ν) : Prop := ∀ w, ∃ o, s.thread w = .done o

/-- The reported health is the right one. -/
structure Visible (p : Proc) : Prop where
  flag : p.redisUp = 1 ↔ p.lastRedisOk = true
  breaker : p.redisUp = 1 ↔ p.breaker.state = .closed ∧ p.breaker.failures = 0
  opened : p.breaker.state = .opened → p.redisUp = 0

/-- What the breaker says of Redis. -/
def healthy (b : CircuitBreaker) : Bool := decide (Recovered b)

/-- The health that the worker is about to report, on `redis_up` and maybe on `_last_redis_ok`. -/
def Guard.verdict : Guard ν → Option Bool
  | .setOk o => some o.ok
  | .setUp o => some o.ok
  | _ => none

/-- The value that the worker is about to write to `_last_redis_ok`. -/
def Guard.nextOk : Guard ν → Option Bool
  | .setOk o => some o.ok
  | _ => none

/-- What worker `w` is about to write, by `f`, is what the breaker says, or another worker is yet to
write that. -/
def Backed (f : Guard ν → Option Bool) (s : Workers ω ν) (w : ω) : Prop :=
  ∀ h ∈ f (s.thread w), h = healthy s.shared.breaker ∨
    ∃ v, v ≠ w ∧ f (s.thread v) = some (healthy s.shared.breaker)

/-- The step, if it writes `_last_redis_ok` or `redis_up`, writes what the breaker says, or another
worker is yet to write that. -/
def FreshWrites (s : Workers ω ν) (e : ω × GuardAct ν) (_ : Workers ω ν) : Prop :=
  Backed Guard.nextOk s e.1 ∧ Backed Guard.verdict s e.1

instance [Fintype ω] [DecidableEq ω] (f : Guard ν → Option Bool) (s : Workers ω ν) (w : ω) :
    Decidable (Backed f s w) :=
  inferInstanceAs (Decidable (∀ h ∈ f (s.thread w), _))

instance [Fintype ω] [DecidableEq ω] (s : Workers ω ν) (e : ω × GuardAct ν) (s' : Workers ω ν) :
    Decidable (FreshWrites s e s') :=
  inferInstanceAs (Decidable (_ ∧ _))

theorem verdict_of_nextOk {g : Guard ν} {h : Bool} (hg : g.nextOk = some h) :
    g.verdict = some h := by
  cases g <;> first | exact hg | cases hg

/-- `allow` does not change what the breaker says. -/
theorem healthy_allow {cfg : Settings} {now : ℚ} {b b' : CircuitBreaker} {r : Bool}
    (hw : WellFormed cfg b) (h : b.allow cfg now = (r, b')) : healthy b' = healthy b := by
  rcases hw.allow_cases now with ⟨-, ha⟩ | ⟨hb, -, ha⟩ | ⟨-, -, ha⟩ | ⟨-, ha⟩ <;>
    obtain ⟨-, rfl⟩ := Prod.mk.inj (h.symm.trans ha)
  · rfl
  · simp [healthy, Recovered, hb]
  · rfl
  · rfl

/-- Each field agrees with the breaker, or will be written by a worker whose verdict does. -/
structure Tracked (cfg : Config) (s : Workers ω ν) : Prop where
  wellFormed : WellFormed cfg.breaker s.shared.breaker
  flag : s.shared.lastRedisOk = healthy s.shared.breaker ∨
    ∃ w, (s.thread w).nextOk = some (healthy s.shared.breaker)
  gauge : s.shared.redisUp = (healthy s.shared.breaker).toNat ∨
    ∃ w, (s.thread w).verdict = some (healthy s.shared.breaker)

theorem Tracked.visible {cfg : Config} {s : Workers ω ν} (h : Tracked cfg s) (hq : Quiescent s) :
    Visible s.shared := by
  have hflag : s.shared.lastRedisOk = healthy s.shared.breaker := by
    rcases h.flag with hf | ⟨w, hw⟩
    · exact hf
    · obtain ⟨o, ho⟩ := hq w
      simp [ho, Guard.nextOk] at hw
  have hgauge : s.shared.redisUp = (healthy s.shared.breaker).toNat := by
    rcases h.gauge with hg | ⟨w, hw⟩
    · exact hg
    · obtain ⟨o, ho⟩ := hq w
      simp [ho, Guard.verdict] at hw
  have hup : s.shared.redisUp = 1 ↔ Recovered s.shared.breaker := by simp [hgauge, healthy]
  refine ⟨by simp [hflag, hgauge], hup, fun ho => ?_⟩
  simp [hgauge, healthy, Recovered, ho]

variable [DecidableEq ω] {cfg : Config}

/-- A step of a worker leaves what the others are about to do. -/
theorem exists_update_of_ne {f : Guard ν → Option Bool} {s : Workers ω ν} {w : ω} {t : Guard ν}
    {h : Bool} (hex : ∃ v, v ≠ w ∧ f (s.thread v) = some h) :
    ∃ v, f (Function.update s.thread w t v) = some h := by
  obtain ⟨v, hne, hv⟩ := hex
  exact ⟨v, by simpa [hne] using hv⟩

theorem exists_update {f : Guard ν → Option Bool} {s : Workers ω ν} {w : ω} {t : Guard ν}
    {h : Bool} (hold : f (s.thread w) = none) (hex : ∃ v, f (s.thread v) = some h) :
    ∃ v, f (Function.update s.thread w t v) = some h := by
  obtain ⟨v, hv⟩ := hex
  have hne : v ≠ w := fun hvw => by simp [hvw, hold] at hv
  exact exists_update_of_ne ⟨v, hne, hv⟩

/-- A step that writes no health, and after which the breaker says the same. -/
theorem Tracked.keep {s : Workers ω ν} {w : ω} {p : Proc} {t : Guard ν} (h : Tracked cfg s)
    (hold : (s.thread w).verdict = none) (hw : WellFormed cfg.breaker p.breaker)
    (hb : healthy p.breaker = healthy s.shared.breaker)
    (hok : p.lastRedisOk = s.shared.lastRedisOk) (hup : p.redisUp = s.shared.redisUp) :
    Tracked cfg ⟨p, Function.update s.thread w t⟩ := by
  have hold' : (s.thread w).nextOk = none := by
    cases ht : s.thread w <;> simp [ht, Guard.verdict] at hold <;> rfl
  refine ⟨hw, ?_, ?_⟩
  · simp only [hb, hok]
    exact h.flag.imp_right (exists_update hold')
  · simp only [hb, hup]
    exact h.gauge.imp_right (exists_update hold)

/-- A report to the breaker: the worker that made it will write what the breaker now says. -/
theorem Tracked.report {s : Workers ω ν} {w : ω} {p : Proc} {o : Outcome ν}
    (hw : WellFormed cfg.breaker p.breaker) (hb : healthy p.breaker = o.ok) :
    Tracked cfg ⟨p, Function.update s.thread w (.setOk o)⟩ :=
  ⟨hw, Or.inr ⟨w, by simp [Guard.nextOk, hb]⟩, Or.inr ⟨w, by simp [Guard.verdict, hb]⟩⟩

theorem tracked_step {s s' : Workers ω ν} {e : ω × GuardAct ν} (hs : Tracked cfg s)
    (hfresh : FreshWrites s e s') (h : Pool.step (workerStep cfg) s e = some s') :
    Tracked cfg s' := by
  obtain ⟨w, a⟩ := e
  obtain ⟨-, old, p, t, hold, heff, rfl⟩ := step_workerEffect h
  have hw := heff.wellFormed hs.wellFormed
  cases heff with
  | start | direct | answered | raised | countError =>
    exact hs.keep (by rw [hold]; rfl) hw rfl rfl rfl
  | allowed b _ hb | refused b _ hb =>
    exact hs.keep (by rw [hold]; rfl) hw (healthy_allow hs.wellFormed hb) rfl rfl
  | success v =>
    exact Tracked.report hw (decide_eq_true (recovered_recordSuccess _))
  | failure =>
    exact Tracked.report hw (decide_eq_false (not_recovered_recordFailure _ _ _))
  | setOk o =>
    -- the gauge is still to be written, by this worker or by one whose verdict is fresh
    rcases hfresh.1 o.ok (by rw [hold]; rfl) with ho | ⟨v, hv, hok⟩
    · exact ⟨hw, Or.inl ho, Or.inr ⟨w, by simp [Guard.verdict, ho]⟩⟩
    · exact ⟨hw, Or.inr (exists_update_of_ne ⟨v, hv, hok⟩),
        Or.inr (exists_update_of_ne ⟨v, hv, verdict_of_nextOk hok⟩)⟩
  | setUp o t ht =>
    refine ⟨hw, hs.flag.imp_right (exists_update (by rw [hold]; rfl)), ?_⟩
    rcases hfresh.2 o.ok (by rw [hold]; rfl) with ho | hup
    · refine Or.inl ?_
      rw [← ho]
      cases o.ok <;> rfl
    · exact Or.inr (exists_update_of_ne hup)

/-- **The reported health is right whenever no call is in progress**, in every run of the workers
in which no stale verdict is left uncorrected. -/
theorem visible_of_freshWrites {t : ℚ} {s : Workers ω ν} {es : List (ω × GuardAct ν)}
    (hfresh : Along (Pool.step (workerStep cfg)) FreshWrites (idle ω ν t) es)
    (h : run (Pool.step (workerStep cfg)) (idle ω ν t) es = some s) (hq : Quiescent s) :
    Visible s.shared := by
  have key : ∀ (s : Workers ω ν) e s', Tracked cfg s → FreshWrites s e s' →
      Pool.step (workerStep cfg) s e = some s' → Tracked cfg s' :=
    fun _ _ _ hs hf he => tracked_step hs hf he
  exact (hfresh.invariant key ⟨WellFormed.init cfg.breaker, Or.inl rfl, Or.inl rfl⟩ h).visible hq

/-- The breaker enabled, with a threshold of 3 and a cooldown of 5. -/
def threeFailures : Config := ⟨true, Settings.init 3 (.fin 5)⟩

/-- A worker fails three times, which opens the breaker, while another one is in a call that fails
later: the outage is visible. -/
theorem visible_outage : ∃ s : Workers (Fin 2) Unit,
    run (Pool.step (workerStep threeFailures)) (idle (Fin 2) Unit 0)
      (List.replicate 2 (0, ⟨0, none⟩) ++ List.replicate 21 (1, ⟨1, none⟩) ++
        List.replicate 5 (0, ⟨2, none⟩)) = some s ∧
      s.shared.breaker.state = .opened ∧ s.shared.redisErrorsTotal = 4 ∧ Visible s.shared := by
  obtain ⟨s, hs, hobs⟩ := Option.map_eq_some_iff.1 (show
    (run (Pool.step (workerStep threeFailures)) (idle (Fin 2) Unit 0)
      (List.replicate 2 (0, ⟨0, none⟩) ++ List.replicate 21 (1, ⟨1, none⟩) ++
        List.replicate 5 (0, ⟨2, none⟩))).map
      (fun s => (s.shared.breaker.state, s.shared.redisErrorsTotal, s.thread 0, s.thread 1)) =
      some (.opened, 4, .done .raised, .done .raised) by decide +kernel)
  obtain ⟨ho, he, h0, h1⟩ := by simpa using hobs
  exact ⟨s, hs, ho, he, visible_of_freshWrites (by decide +kernel) hs
    (Fin.forall_fin_two.2 ⟨⟨_, h0⟩, ⟨_, h1⟩⟩)⟩

/-- Worker 0 reports a success to the breaker; worker 1 then fails three times, which opens it;
worker 0 writes the health of its success last. -/
def staleSuccess : List (Fin 2 × GuardAct Unit) :=
  List.replicate 4 (0, ⟨0, some ()⟩) ++ List.replicate 21 (1, ⟨1, none⟩) ++
    List.replicate 2 (0, ⟨2, some ()⟩)

/-- After that no call is in progress, the breaker is OPEN, and Redis is reported to be up. -/
theorem stale_success_masks_outage : ∃ s : Workers (Fin 2) Unit,
    run (Pool.step (workerStep threeFailures)) (idle (Fin 2) Unit 0) staleSuccess = some s ∧
      Quiescent s ∧ s.shared.breaker.state = .opened ∧ s.shared.redisUp = 1 ∧
      s.shared.lastRedisOk = true ∧ ¬ Visible s.shared := by
  obtain ⟨s, hs, hobs⟩ := Option.map_eq_some_iff.1 (show
    (run (Pool.step (workerStep threeFailures)) (idle (Fin 2) Unit 0) staleSuccess).map
      (fun s => (s.shared.breaker.state, s.shared.redisUp, s.shared.lastRedisOk, s.thread 0,
        s.thread 1)) =
      some (.opened, 1, true, .done (.answered ()), .done .raised) by decide +kernel)
  obtain ⟨ho, hup, hok, h0, h1⟩ := by simpa using hobs
  refine ⟨s, hs, Fin.forall_fin_two.2 ⟨⟨_, h0⟩, ⟨_, h1⟩⟩, ho, hup, hok, fun hv => ?_⟩
  simp [hv.opened ho] at hup

end EdgeCache.Cache
