import EdgeCache.Breaker.Invariant
import EdgeCache.Foundations.Pool

/-!
# Workers calling Redis through the breaker

Any number of workers share one breaker. Each of them, again and again, asks `allow`, makes a Redis
call of any duration when it is answered True, and reports the outcome of that call by exactly one
`record_success` or `record_failure`. The state of a worker is its call in flight, if it has one;
the steps are the three methods of the breaker, each made at a reading of a clock that does not go
backwards. The runs of `Pool.step (callStep cfg)` from `start` are the interleavings of the workers.

Two history variables, which no step reads back into the breaker, allow to speak of single calls:
`admitted` numbers the admissions, and `lastProbe` is the call whose admission last promoted the
breaker from OPEN to HALF_OPEN.

`callStep_effect` says all that a step can do when the breaker is well formed, which it is in every
run (`wellFormed_run`).
-/

namespace EdgeCache.Breaker

open CircuitBreaker Transition

/-- A Redis call that `allow` has admitted: the worker which makes it, its number among the
admissions, the time of its admission, and whether it was admitted as a probe, that is by a breaker
which was not CLOSED. -/
structure Call (ω : Type*) where
  worker : ω
  number : ℕ
  admittedAt : ℚ
  probe : Bool
  deriving DecidableEq

/-- What the workers share: the breaker, the clock, and the history variables. -/
structure Gate (ω : Type*) where
  breaker : CircuitBreaker
  clock : ℚ
  admitted : ℕ
  lastProbe : Option (Call ω)

/-- The breaker call a worker makes. -/
inductive CallOp
  | allow
  | success
  | failure
  deriving DecidableEq, Repr

/-- A breaker call and the reading of the clock at it. -/
structure CallAct where
  now : ℚ
  op : CallOp

variable {ω : Type*} (cfg : Settings)

/-- The call that worker `w` gets admitted when the clock reads `now`. -/
def Gate.newCall (g : Gate ω) (w : ω) (now : ℚ) : Call ω :=
  ⟨w, g.admitted, now, g.breaker.state ≠ .closed⟩

/-- The shared state after the admission of the call `c`. -/
def Gate.grant (g : Gate ω) (c : Call ω) (b : CircuitBreaker) : Gate ω where
  breaker := b
  clock := c.admittedAt
  admitted := g.admitted + 1
  lastProbe := if c.probe then some c else g.lastProbe

/-- One step of worker `w`: a worker without a call may ask for one, a worker with a call may report
its outcome. -/
def callStep (w : ω) (g : Gate ω) (t : Option (Call ω)) (a : CallAct) :
    Option (Gate ω × Option (Call ω)) :=
  if a.now < g.clock then none
  else
    match t, a.op with
    | none, .allow =>
      match g.breaker.allow cfg a.now with
      | (true, b) => some (g.grant (g.newCall w a.now) b, some (g.newCall w a.now))
      | (false, b) => some ({ g with breaker := b, clock := a.now }, none)
    | some _, .success =>
      some ({ g with breaker := g.breaker.recordSuccess, clock := a.now }, none)
    | some _, .failure =>
      some ({ g with breaker := g.breaker.recordFailure cfg a.now, clock := a.now }, none)
    | _, _ => none

/-- The shared state and the calls in flight. -/
abbrev Calls (ω : Type*) := Pool ω (Gate ω) (Option (Call ω))

/-- A new breaker, with no call in flight, when the clock reads `t`. -/
def start (ω : Type*) (t : ℚ) : Calls ω :=
  ⟨⟨init, t, 0, none⟩, fun _ => none⟩

/-! ## What a step can do -/

/-- The effect of a step on the shared state and on the worker's call, by what the breaker did. -/
inductive Effect (w : ω) (g : Gate ω) (a : CallAct) :
    Option (Call ω) → Gate ω → Option (Call ω) → Prop
  /-- Admitted by a CLOSED breaker. -/
  | grant : a.op = .allow → g.breaker.state = .closed →
      Effect w g a none ⟨g.breaker, a.now, g.admitted + 1, g.lastProbe⟩
        (some ⟨w, g.admitted, a.now, false⟩)
  /-- Admitted as the probe of a breaker which was OPEN, after the cooldown. -/
  | promote : a.op = .allow → g.breaker.state = .opened → cfg.Elapsed g.breaker.openedAt a.now →
      Effect w g a none
        ⟨g.breaker.promote, a.now, g.admitted + 1, some ⟨w, g.admitted, a.now, true⟩⟩
        (some ⟨w, g.admitted, a.now, true⟩)
  /-- Refused: the breaker is within its cooldown, or waits for its probe. -/
  | refuse : a.op = .allow → g.breaker.state = .halfOpen ∨
        (g.breaker.state = .opened ∧ ¬ cfg.Elapsed g.breaker.openedAt a.now) →
      Effect w g a none { g with clock := a.now } none
  /-- A success closes the breaker. -/
  | success (c : Call ω) : a.op = .success →
      Effect w g a (some c) { g with breaker := g.breaker.recordSuccess, clock := a.now } none
  /-- A failure that opens the breaker, or finds it OPEN. -/
  | trip (c : Call ω) : a.op = .failure → cfg.threshold ≤ g.breaker.failures + 1 →
      (g.breaker.recordFailure cfg a.now).state = .opened →
      (g.breaker.recordFailure cfg a.now).openedAt = a.now →
      Effect w g a (some c)
        { g with breaker := g.breaker.recordFailure cfg a.now, clock := a.now } none
  /-- A failure which leaves the breaker CLOSED. -/
  | count (c : Call ω) : a.op = .failure → g.breaker.state = .closed →
      g.breaker.failures + 1 < cfg.threshold →
      (g.breaker.recordFailure cfg a.now).state = .closed →
      Effect w g a (some c)
        { g with breaker := g.breaker.recordFailure cfg a.now, clock := a.now } none

variable {cfg}

section Enabled

variable {w : ω} {g : Gate ω} {now : ℚ} (hnow : g.clock ≤ now)

include hnow

theorem callStep_admitted {b : CircuitBreaker} (hb : g.breaker.allow cfg now = (true, b)) :
    callStep cfg w g none ⟨now, .allow⟩ =
      some (g.grant (g.newCall w now) b, some (g.newCall w now)) := by
  simp [callStep, hnow, hb]

theorem callStep_refused {b : CircuitBreaker} (hb : g.breaker.allow cfg now = (false, b)) :
    callStep cfg w g none ⟨now, .allow⟩ = some ({ g with breaker := b, clock := now }, none) := by
  simp [callStep, hnow, hb]

theorem callStep_success (c : Call ω) : callStep cfg w g (some c) ⟨now, .success⟩ =
    some ({ g with breaker := g.breaker.recordSuccess, clock := now }, none) := by
  simp [callStep, hnow]

theorem callStep_failure (c : Call ω) : callStep cfg w g (some c) ⟨now, .failure⟩ =
    some ({ g with breaker := g.breaker.recordFailure cfg now, clock := now }, none) := by
  simp [callStep, hnow]

end Enabled

/-- **What a step can do**, the breaker being well formed. -/
theorem callStep_effect {w : ω} {g g' : Gate ω} {t t' : Option (Call ω)} {a : CallAct}
    (hw : WellFormed cfg g.breaker) (h : callStep cfg w g t a = some (g', t')) :
    g.clock ≤ a.now ∧ Effect cfg w g a t g' t' := by
  unfold callStep at h
  split_ifs at h with hnow
  refine ⟨not_lt.1 hnow, ?_⟩
  split at h
  · -- the worker asks for a call
    next hop =>
    rcases hw.allow_cases a.now with ⟨hb, ha⟩ | ⟨hb, he, ha⟩ | ⟨hb, he, ha⟩ | ⟨hb, ha⟩ <;>
      simp only [ha, Option.some.injEq, Prod.mk.injEq] at h <;> obtain ⟨rfl, rfl⟩ := h
    · simpa [Gate.grant, Gate.newCall, hb] using Effect.grant (w := w) hop hb
    · simpa [Gate.grant, Gate.newCall, hb] using Effect.promote (w := w) hop hb he
    · exact .refuse hop (Or.inr ⟨hb, he⟩)
    · exact .refuse hop (Or.inl hb)
  · -- it reports a success
    next c hop =>
    simp only [Option.some.injEq, Prod.mk.injEq] at h
    obtain ⟨rfl, rfl⟩ := h
    exact .success c hop
  · -- it reports a failure
    next c hop =>
    simp only [Option.some.injEq, Prod.mk.injEq] at h
    obtain ⟨rfl, rfl⟩ := h
    rcases recordFailure_cases cfg a.now g.breaker with ⟨hb, hs, ho⟩ | ⟨hb, hf, hs, -⟩
    · refine .trip c hop ?_ hs ho
      rcases hb with hb | hb
      · have : ¬ (g.breaker.failures : ℤ) < cfg.threshold := fun hlt => by
          simp [hw.closed_iff.2 hlt] at hb
        omega
      · exact hb
    · have hclosed : g.breaker.state = .closed := hw.closed_iff.2 (by omega)
      exact .count c hop hclosed hf (hs.trans hclosed)
  · cases h

theorem Effect.wellFormed {w : ω} {g g' : Gate ω} {t t' : Option (Call ω)} {a : CallAct}
    (hw : WellFormed cfg g.breaker) (h : Effect cfg w g a t g' t') :
    WellFormed cfg g'.breaker := by
  cases h with
  | grant => exact hw
  | promote _ hb _ => exact hw.promote hb
  | refuse => exact hw
  | success => exact WellFormed.recordSuccess cfg _
  | trip => exact hw.recordFailure a.now
  | count => exact hw.recordFailure a.now

theorem Effect.clock_eq {w : ω} {g g' : Gate ω} {t t' : Option (Call ω)} {a : CallAct}
    (h : Effect cfg w g a t g' t') : g'.clock = a.now := by
  cases h <;> rfl

variable [DecidableEq ω]

theorem step_effect {s s' : Calls ω} {w : ω} {a : CallAct}
    (hw : WellFormed cfg s.shared.breaker)
    (h : Pool.step (callStep cfg) s (w, a) = some s') :
    s.shared.clock ≤ a.now ∧ ∃ old g t, s.thread w = old ∧ Effect cfg w s.shared a old g t ∧
      s' = ⟨g, Function.update s.thread w t⟩ := by
  obtain ⟨g, t, ht, rfl⟩ := Pool.step_eq_some.1 h
  obtain ⟨hclock, heff⟩ := callStep_effect hw ht
  exact ⟨hclock, _, g, t, rfl, heff, rfl⟩

theorem wellFormed_step {s s' : Calls ω} {e : ω × CallAct} (hw : WellFormed cfg s.shared.breaker)
    (h : Pool.step (callStep cfg) s e = some s') : WellFormed cfg s'.shared.breaker := by
  obtain ⟨-, old, g, t, -, heff, rfl⟩ := step_effect hw h
  exact heff.wellFormed hw

/-- The breaker is well formed in every run. -/
theorem wellFormed_run {t : ℚ} {s : Calls ω} (h : Reachable (Pool.step (callStep cfg)) (start ω t) s) :
    WellFormed cfg s.shared.breaker :=
  h.invariant (I := fun s => WellFormed cfg s.shared.breaker)
    (fun _ _ _ hw he => wellFormed_step hw he) (WellFormed.init cfg)

theorem clock_le_of_run {s s' : Calls ω} {es : List (ω × CallAct)} {t₁ : ℚ}
    (hw : WellFormed cfg s.shared.breaker) (hs : s.shared.clock ≤ t₁)
    (hes : ∀ e ∈ es, e.2.now ≤ t₁) (h : run (Pool.step (callStep cfg)) s es = some s') :
    s'.shared.clock ≤ t₁ := by
  induction es generalizing s with
  | nil =>
    obtain rfl := Option.some.inj h
    exact hs
  | cons e es ih =>
    obtain ⟨s₁, he, h⟩ := (run_cons_eq_some _).1 h
    have hw₁ := wellFormed_step hw he
    obtain ⟨w, a⟩ := e
    obtain ⟨-, old, g, t, -, heff, rfl⟩ := step_effect hw he
    exact ih hw₁ (heff.clock_eq.trans_le (hes (w, a) (by simp))) (fun d hd => hes d (by simp [hd])) h

end EdgeCache.Breaker
