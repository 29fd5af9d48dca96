import EdgeCache.Foundations.PyFloat

/-!
# The circuit breaker

`_CircuitBreaker` of `app/cache.py`. Each of its methods runs under the breaker's lock, so each is
one atomic function on the breaker's fields; `time.monotonic()` is the argument `now` of the two
methods that read the clock. The thresholds are fixed by the constructor, which normalises them:
`Settings` carries the two bounds this gives.

`Settings.Elapsed` is the test of the cooldown, the only place where the clock is used. The lemmas
after each method (`allow_cases`, `recordFailure_cases` and the field lemmas) say all that it can
do; nothing below unfolds the methods again.
-/

namespace EdgeCache.Breaker

/-- The breaker's states, `_CB_CLOSED`, `_CB_HALF_OPEN` and `_CB_OPEN`. -/
inductive CbState
  | closed
  | halfOpen
  | opened
  deriving DecidableEq, Repr

/-- `_CB_STATE_VALUE`, the encoding of the states on the `redis_circuit_state` gauge. -/
def cbStateValue : CbState → ℕ
  | .closed => 0
  | .halfOpen => 1
  | .opened => 2

/-- The fields `_threshold` and `_cooldown`, as the constructor leaves them. -/
structure Settings where
  threshold : ℤ
  cooldown : PyFloat
  one_le_threshold : 1 ≤ threshold
  zero_le_cooldown : PyFloat.le (.fin 0) cooldown = true

/-- The arguments `threshold` and `cooldown` of the constructor, normalised. -/
def Settings.init (threshold : ℤ) (cooldown : PyFloat) : Settings where
  threshold := max 1 threshold
  cooldown := PyFloat.max (.fin 0) cooldown
  one_le_threshold := le_max_left 1 threshold
  zero_le_cooldown := PyFloat.zero_le_max cooldown

/-- `(now - t) >= self._cooldown`: the clock reads at least `t + cooldown`. -/
def Settings.Elapsed (cfg : Settings) (t now : ℚ) : Prop :=
  PyFloat.le cfg.cooldown (.fin (now - t)) = true

instance (cfg : Settings) (t now : ℚ) : Decidable (cfg.Elapsed t now) :=
  inferInstanceAs (Decidable (_ = true))

/-- The mutable fields of the breaker, and the value it last set on `redis_circuit_state`. -/
structure CircuitBreaker where
  state : CbState
  failures : ℕ
  openedAt : ℚ
  halfOpenPending : Bool
  redisCircuitState : ℕ
  deriving DecidableEq, Repr

namespace CircuitBreaker

/-- `_publish`. -/
def publish (b : CircuitBreaker) : CircuitBreaker :=
  { b with redisCircuitState := cbStateValue b.state }

/-- The breaker after `__init__`. -/
def init : CircuitBreaker :=
  publish
    { state := .closed
      failures := 0
      openedAt := 0
      halfOpenPending := false
      redisCircuitState := 0 }

/-- The promotion from OPEN to HALF_OPEN in `allow`. -/
def promote (b : CircuitBreaker) : CircuitBreaker :=
  publish { b with state := .halfOpen, halfOpenPending := true }

/-- `allow`: whether a Redis call should be attempted at time `now`. -/
def allow (cfg : Settings) (now : ℚ) (b : CircuitBreaker) : Bool × CircuitBreaker :=
  match b.state with
  | .closed => (true, b)
  | .opened => if cfg.Elapsed b.openedAt now then (true, b.promote) else (false, b)
  | .halfOpen =>
    -- only the probe in flight is allowed
    if b.halfOpenPending then (false, b) else (true, { b with halfOpenPending := true })

/-- `record_success`. -/
def recordSuccess (b : CircuitBreaker) : CircuitBreaker :=
  let b := { b with failures := 0, halfOpenPending := false }
  if b.state ≠ .closed then publish { b with state := .closed } else b

/-- `record_failure`: a failure in HALF_OPEN, or too many in a row, open the breaker. -/
def recordFailure (cfg : Settings) (now : ℚ) (b : CircuitBreaker) : CircuitBreaker :=
  let b := { b with failures := b.failures + 1, halfOpenPending := false }
  if b.state = .halfOpen ∨ cfg.threshold ≤ b.failures then
    publish { b with state := .opened, openedAt := now }
  else b

/-- `reset`. -/
def reset (b : CircuitBreaker) : CircuitBreaker :=
  publish { b with state := .closed, failures := 0, halfOpenPending := false }

/-! ## What each method does -/

@[simp] theorem state_init : init.state = .closed := rfl

@[simp] theorem failures_init : init.failures = 0 := rfl

@[simp] theorem halfOpenPending_init : init.halfOpenPending = false := rfl

@[simp] theorem state_promote (b : CircuitBreaker) : b.promote.state = .halfOpen := rfl

@[simp] theorem failures_promote (b : CircuitBreaker) : b.promote.failures = b.failures := rfl

@[simp] theorem halfOpenPending_promote (b : CircuitBreaker) :
    b.promote.halfOpenPending = true := rfl

variable (cfg : Settings) (now : ℚ) (b : CircuitBreaker)

theorem allow_of_closed (h : b.state = .closed) : b.allow cfg now = (true, b) := by
  simp [allow, h]

theorem allow_of_elapsed (h : b.state = .opened) (he : cfg.Elapsed b.openedAt now) :
    b.allow cfg now = (true, b.promote) := by
  simp [allow, h, he]

theorem allow_of_not_elapsed (h : b.state = .opened) (he : ¬ cfg.Elapsed b.openedAt now) :
    b.allow cfg now = (false, b) := by
  simp [allow, h, he]

theorem allow_of_pending (h : b.state = .halfOpen) (hp : b.halfOpenPending = true) :
    b.allow cfg now = (false, b) := by
  simp [allow, h, hp]

@[simp] theorem state_recordSuccess : b.recordSuccess.state = .closed := by
  unfold recordSuccess
  by_cases h : b.state = .closed <;> simp [h, publish]

@[simp] theorem failures_recordSuccess : b.recordSuccess.failures = 0 := by
  unfold recordSuccess
  by_cases h : b.state = .closed <;> simp [h, publish]

@[simp] theorem halfOpenPending_recordSuccess : b.recordSuccess.halfOpenPending = false := by
  unfold recordSuccess
  by_cases h : b.state = .closed <;> simp [h, publish]

@[simp] theorem failures_recordFailure :
    (b.recordFailure cfg now).failures = b.failures + 1 := by
  simp only [recordFailure]
  split_ifs <;> rfl

@[simp] theorem halfOpenPending_recordFailure :
    (b.recordFailure cfg now).halfOpenPending = false := by
  simp only [recordFailure]
  split_ifs <;> rfl

/-- A recorded failure either opens the breaker at `now`, or leaves it as it is. -/
theorem recordFailure_cases :
    ((b.state = .halfOpen ∨ cfg.threshold ≤ b.failures + 1) ∧
        (b.recordFailure cfg now).state = .opened ∧ (b.recordFailure cfg now).openedAt = now) ∨
      (b.state ≠ .halfOpen ∧ b.failures + 1 < cfg.threshold ∧
        (b.recordFailure cfg now).state = b.state ∧
        (b.recordFailure cfg now).openedAt = b.openedAt) := by
  unfold recordFailure
  by_cases h : b.state = .halfOpen ∨ cfg.threshold ≤ b.failures + 1
  · exact Or.inl ⟨h, by simp [h, publish], by simp [h, publish]⟩
  · have h' := not_or.1 h
    exact Or.inr ⟨h'.1, not_le.1 h'.2, by simp [h], by simp [h]⟩

@[simp] theorem state_reset : b.reset.state = .closed := rfl

@[simp] theorem failures_reset : b.reset.failures = 0 := rfl

@[simp] theorem halfOpenPending_reset : b.reset.halfOpenPending = false := rfl

end CircuitBreaker

/-! ## The cooldown -/

namespace Settings

variable {cfg : Settings} {t t' now now' : ℚ}

theorem Elapsed.mono_right (h : cfg.Elapsed t now) (hn : now ≤ now') : cfg.Elapsed t now' :=
  PyFloat.le_fin_mono (by linarith) h

theorem Elapsed.mono_left (h : cfg.Elapsed t now) (ht : t' ≤ t) : cfg.Elapsed t' now :=
  PyFloat.le_fin_mono (by linarith) h

/-- A cooldown `c` has elapsed since `t` at `t + c`. -/
theorem elapsed_iff_of_cooldown {c : ℚ} (hc : cfg.cooldown = .fin c) :
    cfg.Elapsed t now ↔ t + c ≤ now := by
  rw [Elapsed, hc, PyFloat.le_fin, decide_eq_true_iff]
  constructor <;> intro h <;> linarith

/-- An infinite cooldown never elapses. -/
theorem not_elapsed_of_posInf (hc : cfg.cooldown = .posInf) : ¬ cfg.Elapsed t now := by
  rw [Elapsed, hc]
  exact Bool.false_ne_true

end Settings

end EdgeCache.Breaker
