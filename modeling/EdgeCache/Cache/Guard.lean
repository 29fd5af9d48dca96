import EdgeCache.Breaker.Probe

/-!
# Redis calls behind the breaker

`Cache._read` and `Cache._write` of `app/cache.py` with a Redis client, which differ only in the
client call they make (`client.get`, `client.set`). `guardStep` is their common body, one atomic
step after the other: the breaker's `allow`, the client call, the breaker's `record_success` or
`record_failure`, and the writes of the health that the process reports, namely `_last_redis_ok` and
the metrics `redis_up` and `redis_errors_total`. The locks of the breaker make each of its methods
one step; nothing joins the steps together.

Any number of workers of a process are in such calls at the same time (`workerStep`). Their breaker
is well formed in every run (`wellFormed_run`), and what they do to it is a run of the workers of
`EdgeCache.Breaker.Calls` (`refines_calls`): so its results hold of the cache, for instance that a
HALF_OPEN breaker waits for a worker that is in its client call (`exists_calling_of_halfOpen`).
-/

namespace EdgeCache.Cache

open Breaker Transition

/-- The switch `REDIS_CB_ENABLED` and the settings of the breaker. -/
structure Config where
  cbEnabled : Bool
  breaker : Settings

/-- What the workers of a process share: the breaker, the health they report, and the clock. -/
structure Proc where
  breaker : CircuitBreaker
  lastRedisOk : Bool
  redisUp : ℕ
  redisErrorsTotal : ℕ
  clock : ℚ
  deriving DecidableEq

/-- The process after `Cache.__init__`, in strict mode, when the clock reads `t`. -/
def Proc.init (t : ℚ) : Proc where
  breaker := CircuitBreaker.init
  lastRedisOk := true
  redisUp := 1
  redisErrorsTotal := 0
  clock := t

/-- How `_read` or `_write` went: not tried, answered by Redis, or ended by an exception. -/
inductive Outcome (ν : Type*)
  | skipped
  | answered (v : ν)
  | raised
  deriving DecidableEq

/-- The health that is reported of the outcome. -/
def Outcome.ok {ν : Type*} : Outcome ν → Bool
  | .answered _ => true
  | _ => false

/-- The value that the caller gets. -/
def Outcome.value {ν : Type*} : Outcome ν → Option ν
  | .answered v => some v
  | _ => none

/-- Where a worker is in `_read` or `_write`. -/
inductive Guard (ν : Type*)
  | allow
  | redis
  | success (v : ν)
  | failure
  | setOk (o : Outcome ν)
  | setUp (o : Outcome ν)
  | countError
  | done (o : Outcome ν)
  deriving DecidableEq

variable {ν : Type*} (cfg : Config)

/-- The next step, when the clock reads `now`. The client call, if it is made, returns `reply`, or
raises an exception when `reply` is none. -/
def guardStep (now : ℚ) (reply : Option ν) (p : Proc) : Guard ν → Option (Proc × Guard ν)
  | .allow =>
    if cfg.cbEnabled then
      match p.breaker.allow cfg.breaker now with
      | (true, b) => some ({ p with breaker := b }, .redis)
      | (false, b) => some ({ p with breaker := b }, .setOk .skipped)
    else some (p, .redis)
  | .redis =>
    match reply with
    | some v => some (p, .success v)
    | none => some (p, .failure)
  | .success v => some ({ p with breaker := p.breaker.recordSuccess }, .setOk (.answered v))
  | .failure => some ({ p with breaker := p.breaker.recordFailure cfg.breaker now }, .setOk .raised)
  | .setOk o => some ({ p with lastRedisOk := o.ok }, .setUp o)
  | .setUp o =>
    some ({ p with redisUp := if o.ok then 1 else 0 },
      match o with
      | .raised => .countError
      | o => .done o)
  | .countError => some ({ p with redisErrorsTotal := p.redisErrorsTotal + 1 }, .done .raised)
  | .done _ => none

/-- The reading of the clock at a step, and the reply of Redis if the step is a client call. -/
structure GuardAct (ν : Type*) where
  now : ℚ
  reply : Option ν

/-- One step of a worker, which starts another call when it is done with one. -/
def workerStep {ω : Type*} (_ : ω) (p : Proc) (t : Guard ν) (a : GuardAct ν) :
    Option (Proc × Guard ν) :=
  if a.now < p.clock then none
  else
    match t with
    | .done _ => some ({ p with clock := a.now }, .allow)
    | t => (guardStep cfg a.now a.reply p t).map fun r => ({ r.1 with clock := a.now }, r.2)

/-- A process and its workers. -/
abbrev Workers (ω ν : Type*) := Pool ω Proc (Guard ν)

/-- A new process whose workers have nothing to do. -/
def idle (ω ν : Type*) (t : ℚ) : Workers ω ν := ⟨Proc.init t, fun _ => .done .skipped⟩

variable {cfg}

/-! ## One call -/

/-- The value that the client call has returned. -/
def Guard.found : Guard ν → Option ν
  | .success v => some v
  | .setOk o => o.value
  | .setUp o => o.value
  | .done o => o.value
  | _ => none

/-- A value comes from the client call and from nowhere else. -/
theorem found_guardStep {now : ℚ} {reply : Option ν} {p p' : Proc} {g g' : Guard ν}
    (h : guardStep cfg now reply p g = some (p', g')) :
    (g = .redis ∧ g'.found = reply) ∨ (g ≠ .redis ∧ ∀ v ∈ g'.found, v ∈ g.found) := by
  cases g with
  | allow =>
    refine Or.inr ⟨nofun, fun v hv => ?_⟩
    simp only [guardStep] at h
    split_ifs at h
    · split at h <;> obtain ⟨rfl, rfl⟩ := Prod.mk.inj (Option.some.inj h) <;>
        simp [Guard.found, Outcome.value] at hv
    · obtain ⟨rfl, rfl⟩ := Prod.mk.inj (Option.some.inj h)
      simp [Guard.found] at hv
  | redis =>
    cases reply with
    | none | some =>
      obtain ⟨rfl, rfl⟩ := Prod.mk.inj (Option.some.inj h)
      exact Or.inl ⟨rfl, rfl⟩
  | setUp o =>
    obtain ⟨rfl, rfl⟩ := Prod.mk.inj (Option.some.inj h)
    cases o <;> exact Or.inr ⟨nofun, fun v hv => hv⟩
  | success | failure | setOk | countError =>
    obtain ⟨rfl, rfl⟩ := Prod.mk.inj (Option.some.inj h)
    exact Or.inr ⟨nofun, fun v hv => hv⟩
  | done => cases h

/-- A bound on the steps that a worker has yet to take in its call. -/
def Guard.rank : Guard ν → ℕ
  | .allow => 6
  | .redis => 5
  | .success _ => 4
  | .failure => 4
  | .setOk _ => 3
  | .setUp _ => 2
  | .countError => 1
  | .done _ => 0

theorem Guard.rank_pos_or_done (g : Guard ν) : 0 < g.rank ∨ ∃ o, g = .done o := by
  cases g with
  | done o => exact Or.inr ⟨o, rfl⟩
  | _ => exact Or.inl (Nat.succ_pos _)

theorem rank_pos_of_guardStep {now : ℚ} {reply : Option ν} {p : Proc} {g : Guard ν}
    {q : Proc × Guard ν} (h : guardStep cfg now reply p g = some q) : 0 < g.rank := by
  rcases g.rank_pos_or_done with hg | ⟨o, rfl⟩
  · exact hg
  · cases h

/-- A call can always go on, whatever Redis does, and so it returns. -/
theorem exists_guardStep (cfg : Config) (now : ℚ) (reply : Option ν) (p : Proc) {g : Guard ν}
    (hg : 0 < g.rank) :
    ∃ p' g', guardStep cfg now reply p g = some (p', g') ∧ g'.rank < g.rank := by
  cases g with
  | allow =>
    simp only [guardStep]
    split_ifs
    · split <;> exact ⟨_, _, rfl, by simp [Guard.rank]⟩
    · exact ⟨_, _, rfl, by simp [Guard.rank]⟩
  | redis => cases reply <;> exact ⟨_, _, rfl, by simp [Guard.rank]⟩
  | setUp o => cases o <;> exact ⟨_, _, rfl, by simp [Guard.rank]⟩
  | success | failure | setOk | countError => exact ⟨_, _, rfl, by simp [Guard.rank]⟩
  | done => cases hg

/-! ## What a step can do -/

section Enabled

variable {ω : Type*} {w : ω} {now : ℚ} {p : Proc} {g : Guard ν} (hnow : p.clock ≤ now)

include hnow

theorem workerStep_start (reply : Option ν) (hg : g.rank = 0) :
    workerStep cfg w p g ⟨now, reply⟩ = some ({ p with clock := now }, .allow) := by
  rcases g.rank_pos_or_done with hpos | ⟨o, rfl⟩
  · omega
  · simp [workerStep, hnow]

theorem workerStep_guard {reply : Option ν} {p' : Proc} {g' : Guard ν}
    (h : guardStep cfg now reply p g = some (p', g')) :
    workerStep cfg w p g ⟨now, reply⟩ = some ({ p' with clock := now }, g') := by
  cases g with
  | done => cases h
  | _ => simp [workerStep, hnow, h]

end Enabled

/-- The effect of a step on the process and on the worker that takes it. -/
inductive WorkerEffect (cfg : Config) (p : Proc) (now : ℚ) : Guard ν → Proc → Guard ν → Prop
  | start (o : Outcome ν) : WorkerEffect cfg p now (.done o) { p with clock := now } .allow
  | direct : cfg.cbEnabled = false →
      WorkerEffect cfg p now .allow { p with clock := now } .redis
  | allowed (b : CircuitBreaker) : cfg.cbEnabled = true →
      p.breaker.allow cfg.breaker now = (true, b) →
      WorkerEffect cfg p now .allow { p with breaker := b, clock := now } .redis
  | refused (b : CircuitBreaker) : cfg.cbEnabled = true →
      p.breaker.allow cfg.breaker now = (false, b) →
      WorkerEffect cfg p now .allow { p with breaker := b, clock := now } (.setOk .skipped)
  | answered (v : ν) : WorkerEffect cfg p now .redis { p with clock := now } (.success v)
  | raised : WorkerEffect cfg p now .redis { p with clock := now } .failure
  | success (v : ν) : WorkerEffect cfg p now (.success v)
      { p with breaker := p.breaker.recordSuccess, clock := now } (.setOk (.answered v))
  | failure : WorkerEffect cfg p now .failure
      { p with breaker := p.breaker.recordFailure cfg.breaker now, clock := now } (.setOk .raised)
  | setOk (o : Outcome ν) : WorkerEffect cfg p now (.setOk o)
      { p with lastRedisOk := o.ok, clock := now } (.setUp o)
  | setUp (o : Outcome ν) (t : Guard ν) : t = .countError ∨ t = .done o →
      WorkerEffect cfg p now (.setUp o)
        { p with redisUp := if o.ok then 1 else 0, clock := now } t
  | countError : WorkerEffect cfg p now .countError
      { p with redisErrorsTotal := p.redisErrorsTotal + 1, clock := now } (.done .raised)

/-- **What a step of a worker can do.** -/
theorem workerStep_effect {ω : Type*} {w : ω} {p p' : Proc} {t t' : Guard ν} {a : GuardAct ν}
    (h : workerStep cfg w p t a = some (p', t')) :
    p.clock ≤ a.now ∧ WorkerEffect cfg p a.now t p' t' := by
  unfold workerStep at h
  split_ifs at h with hnow
  refine ⟨not_lt.1 hnow, ?_⟩
  cases t with
  | done o =>
    obtain ⟨rfl, rfl⟩ := Prod.mk.inj (Option.some.inj h)
    exact .start o
  | allow =>
    cases hcb : cfg.cbEnabled with
    | false =>
      simp only [guardStep, hcb, Bool.false_eq_true, if_false, Option.map_some] at h
      obtain ⟨rfl, rfl⟩ := Prod.mk.inj (Option.some.inj h)
      exact .direct hcb
    | true =>
      rcases hb : p.breaker.allow cfg.breaker a.now with ⟨admitted, b⟩
      simp only [guardStep, hcb, if_true, hb] at h
      cases admitted with
      | true =>
        obtain ⟨rfl, rfl⟩ := Prod.mk.inj (Option.some.inj h)
        exact .allowed b hcb hb
      | false =>
        obtain ⟨rfl, rfl⟩ := Prod.mk.inj (Option.some.inj h)
        exact .refused b hcb hb
  | redis =>
    cases hr : a.reply with
    | none =>
      simp only [guardStep, hr] at h
      obtain ⟨rfl, rfl⟩ := Prod.mk.inj (Option.some.inj h)
      exact .raised
    | some v =>
      simp only [guardStep, hr] at h
      obtain ⟨rfl, rfl⟩ := Prod.mk.inj (Option.some.inj h)
      exact .answered v
  | success v =>
    obtain ⟨rfl, rfl⟩ := Prod.mk.inj (Option.some.inj h)
    exact .success v
  | failure =>
    obtain ⟨rfl, rfl⟩ := Prod.mk.inj (Option.some.inj h)
    exact .failure
  | setOk o =>
    obtain ⟨rfl, rfl⟩ := Prod.mk.inj (Option.some.inj h)
    exact .setOk o
  | setUp o =>
    obtain ⟨rfl, rfl⟩ := Prod.mk.inj (Option.some.inj h)
    refine .setUp o _ ?_
    cases o with
    | raised => exact Or.inl rfl
    | skipped | answered => exact Or.inr rfl
  | countError =>
    obtain ⟨rfl, rfl⟩ := Prod.mk.inj (Option.some.inj h)
    exact .countError

theorem WorkerEffect.wellFormed {p p' : Proc} {now : ℚ} {t t' : Guard ν}
    (hw : WellFormed cfg.breaker p.breaker) (h : WorkerEffect cfg p now t p' t') :
    WellFormed cfg.breaker p'.breaker := by
  cases h with
  | allowed b _ hb | refused b _ hb =>
    have := hw.allow now
    rwa [hb] at this
  | success => exact WellFormed.recordSuccess _ _
  | failure => exact hw.recordFailure now
  | start | direct | answered | raised | setOk | setUp | countError => exact hw

variable {ω : Type*} [DecidableEq ω]

theorem step_workerEffect {s s' : Workers ω ν} {w : ω} {a : GuardAct ν}
    (h : Pool.step (workerStep cfg) s (w, a) = some s') :
    s.shared.clock ≤ a.now ∧ ∃ old p t, s.thread w = old ∧
      WorkerEffect cfg s.shared a.now old p t ∧ s' = ⟨p, Function.update s.thread w t⟩ := by
  obtain ⟨p, t, ht, rfl⟩ := Pool.step_eq_some.1 h
  obtain ⟨hclock, heff⟩ := workerStep_effect ht
  exact ⟨hclock, _, p, t, rfl, heff, rfl⟩

/-- The breaker is well formed in every run of the workers. -/
theorem wellFormed_run {t : ℚ} {s : Workers ω ν}
    (h : Reachable (Pool.step (workerStep cfg)) (idle ω ν t) s) :
    WellFormed cfg.breaker s.shared.breaker := by
  have key : ∀ (s : Workers ω ν) e s', WellFormed cfg.breaker s.shared.breaker →
      Pool.step (workerStep cfg) s e = some s' → WellFormed cfg.breaker s'.shared.breaker := by
    rintro s ⟨w, a⟩ s' hw he
    obtain ⟨-, old, p, t, -, heff, rfl⟩ := step_workerEffect he
    exact heff.wellFormed hw
  exact h.invariant key (WellFormed.init cfg.breaker)

/-! ## The calls of the workers -/

/-- The worker has been admitted, and has yet to report its outcome to the breaker. -/
def Guard.calling : Guard ν → Bool
  | .redis => true
  | .success _ => true
  | .failure => true
  | _ => false

/-- The breaker of the process is that of the abstract workers, and the calls in flight are those of
the workers that are calling. -/
structure Matches (s : Workers ω ν) (q : Calls ω) : Prop where
  breaker : q.shared.breaker = s.shared.breaker
  clock : q.shared.clock ≤ s.shared.clock
  calls : ∀ w, (q.thread w).isSome = (s.thread w).calling

/-- A step of worker `w` that is no breaker call changes nothing for the abstract workers. -/
theorem Matches.stutter {s : Workers ω ν} {q : Calls ω} (hR : Matches s q) {w : ω} {p : Proc}
    {t : Guard ν} (hb : p.breaker = s.shared.breaker) (hclock : s.shared.clock ≤ p.clock)
    (ht : t.calling = (s.thread w).calling) : Matches ⟨p, Function.update s.thread w t⟩ q where
  breaker := hR.breaker.trans hb.symm
  clock := hR.clock.trans hclock
  calls := fun v => by
    rcases eq_or_ne v w with rfl | hv
    · simpa [ht] using hR.calls v
    · simpa [hv] using hR.calls v

/-- A step of worker `w` that is the breaker call `op`. -/
theorem Matches.call {s : Workers ω ν} {q : Calls ω} (hR : Matches s q) {w : ω} {p : Proc}
    {t : Guard ν} {op : CallOp} {g : Gate ω} {old c : Option (Call ω)} (hold : q.thread w = old)
    (hstep : callStep cfg.breaker w q.shared old ⟨p.clock, op⟩ = some (g, c))
    (hb : g.breaker = p.breaker) (hclock : g.clock = p.clock) (ht : c.isSome = t.calling) :
    ∃ fs q', run (Pool.step (callStep cfg.breaker)) q fs = some q' ∧
      Matches ⟨p, Function.update s.thread w t⟩ q' := by
  have hq : Pool.step (callStep cfg.breaker) q (w, ⟨p.clock, op⟩) =
      some ⟨g, Function.update q.thread w c⟩ := Pool.step_eq_some.2 ⟨g, c, hold ▸ hstep, rfl⟩
  refine ⟨[(w, ⟨p.clock, op⟩)], _, (run_cons_eq_some _).2 ⟨_, hq, rfl⟩, hb, hclock.le, fun v => ?_⟩
  rcases eq_or_ne v w with rfl | hv
  · simpa using ht
  · simpa [hv] using hR.calls v

/-- One step of the simulation. -/
theorem matches_step (hcb : cfg.cbEnabled = true) {s s' : Workers ω ν} {q : Calls ω}
    {e : ω × GuardAct ν} (hR : Matches s q) (h : Pool.step (workerStep cfg) s e = some s') :
    ∃ fs q', run (Pool.step (callStep cfg.breaker)) q fs = some q' ∧ Matches s' q' := by
  obtain ⟨w, a⟩ := e
  obtain ⟨hclock, old, p, t, hold, heff, rfl⟩ := step_workerEffect h
  have hnow : q.shared.clock ≤ a.now := hR.clock.trans hclock
  have hcall := hR.calls w
  rw [hold] at hcall
  cases heff with
  | direct hcb' => cases hcb.symm.trans hcb'
  | start | answered | raised | setOk | countError =>
    exact ⟨[], q, rfl, hR.stutter rfl hclock (by rw [hold]; rfl)⟩
  | setUp o t ht =>
    refine ⟨[], q, rfl, hR.stutter rfl hclock ?_⟩
    rcases ht with rfl | rfl <;> rw [hold] <;> rfl
  | allowed b _ hb =>
    have hnone : q.thread w = none := by simpa [Guard.calling] using hcall
    exact hR.call hnone (callStep_admitted hnow (hR.breaker ▸ hb)) rfl rfl rfl
  | refused b _ hb =>
    have hnone : q.thread w = none := by simpa [Guard.calling] using hcall
    exact hR.call hnone (callStep_refused hnow (hR.breaker ▸ hb)) rfl rfl rfl
  | success v =>
    obtain ⟨c, hc⟩ := Option.isSome_iff_exists.1 (hcall.trans rfl)
    exact hR.call hc (callStep_success hnow c) (by rw [← hR.breaker]) rfl rfl
  | failure =>
    obtain ⟨c, hc⟩ := Option.isSome_iff_exists.1 (hcall.trans rfl)
    exact hR.call hc (callStep_failure hnow c) (by rw [← hR.breaker]) rfl rfl

/-- **The workers refine the abstract ones**: what they do to an enabled breaker is a run of
`Pool.step (callStep cfg.breaker)`. -/
theorem refines_calls (hcb : cfg.cbEnabled = true) {t : ℚ} {s : Workers ω ν}
    (h : Reachable (Pool.step (workerStep cfg)) (idle ω ν t) s) :
    ∃ q, Reachable (Pool.step (callStep cfg.breaker)) (start ω t) q ∧ Matches s q := by
  obtain ⟨es, h⟩ := h
  have hstart : Matches (idle ω ν t) (start ω t) := ⟨rfl, le_rfl, fun _ => rfl⟩
  obtain ⟨fs, q, hq, hR⟩ :=
    run_simulates (fun s e s' q hR he => matches_step hcb hR he) hstart h
  exact ⟨q, ⟨fs, hq⟩, hR⟩

/-- While the breaker is HALF_OPEN, some worker is in its client call or about to report it. -/
theorem exists_calling_of_halfOpen (hcb : cfg.cbEnabled = true) {t : ℚ} {s : Workers ω ν}
    (h : Reachable (Pool.step (workerStep cfg)) (idle ω ν t) s)
    (hs : s.shared.breaker.state = .halfOpen) : ∃ w, (s.thread w).calling = true := by
  obtain ⟨q, hq, hR⟩ := refines_calls hcb h
  obtain ⟨c, -, hc⟩ := probe_inFlight hq (hR.breaker ▸ hs)
  exact ⟨c.worker, by rw [← hR.calls, hc]; rfl⟩

end EdgeCache.Cache
