import EdgeCache.Breaker.Machine
import Mathlib.Data.List.Induction

/-!
# The representation invariant of the breaker

After any sequence of calls of the four methods, in any order and at any times, `_failures` counts
the failures recorded since the last success, reset or construction
(`failures_after`), the breaker is CLOSED exactly while that count is below the threshold, and
`_half_open_pending` is set exactly in HALF_OPEN (`WellFormed`). The two parts of `WellFormed` are
proved together: a breaker that is HALF_OPEN was promoted from OPEN, with its count at the threshold
already, and leaves HALF_OPEN with the flag cleared.
-/

namespace EdgeCache.Breaker

open CircuitBreaker

/-- The methods of the breaker. -/
inductive Method
  | allow
  | recordSuccess
  | recordFailure
  | reset
  deriving DecidableEq, Repr

/-- The breaker after a call of a method, made when the clock reads `e.1`. -/
def callMethod (cfg : Settings) (b : CircuitBreaker) (e : ℚ × Method) : CircuitBreaker :=
  match e.2 with
  | .allow => (b.allow cfg e.1).2
  | .recordSuccess => b.recordSuccess
  | .recordFailure => b.recordFailure cfg e.1
  | .reset => b.reset

/-- A new breaker after a sequence of calls. -/
def after (cfg : Settings) (es : List (ℚ × Method)) : CircuitBreaker :=
  es.foldl (callMethod cfg) init

/-- The number of failures recorded since the last success or reset of the history, or since its
start. -/
def failuresInARow (ms : List Method) : ℕ :=
  (ms.reverse.takeWhile fun m => m ≠ .recordSuccess ∧ m ≠ .reset).count .recordFailure

theorem failuresInARow_concat (ms : List Method) (m : Method) :
    failuresInARow (ms ++ [m]) =
      match m with
      | .allow => failuresInARow ms
      | .recordFailure => failuresInARow ms + 1
      | .recordSuccess => 0
      | .reset => 0 := by
  cases m <;> simp [failuresInARow]

/-- The representation invariant of the three fields. -/
structure WellFormed (cfg : Settings) (b : CircuitBreaker) : Prop where
  closed_iff : b.state = .closed ↔ (b.failures : ℤ) < cfg.threshold
  pending_iff : b.halfOpenPending = true ↔ b.state = .halfOpen

/-- A breaker that has counted no failure since the last success. -/
def Recovered (b : CircuitBreaker) : Prop := b.state = .closed ∧ b.failures = 0

instance (b : CircuitBreaker) : Decidable (Recovered b) := inferInstanceAs (Decidable (_ ∧ _))

theorem recovered_recordSuccess (b : CircuitBreaker) : Recovered b.recordSuccess :=
  ⟨state_recordSuccess b, failures_recordSuccess b⟩

theorem not_recovered_recordFailure (cfg : Settings) (now : ℚ) (b : CircuitBreaker) :
    ¬ Recovered (b.recordFailure cfg now) := fun h => by
  have := h.2
  simp at this

namespace WellFormed

variable {cfg : Settings} {b : CircuitBreaker} (now : ℚ)

theorem init (cfg : Settings) : WellFormed cfg CircuitBreaker.init := by
  have := cfg.one_le_threshold
  constructor
  · simp
    omega
  · simp

theorem promote (h : WellFormed cfg b) (hb : b.state = .opened) : WellFormed cfg b.promote := by
  have := h.closed_iff
  constructor <;> simp_all

/-- The four things `allow` can do to a well-formed breaker: the branch which would let a second
probe through is not one of them. -/
theorem allow_cases (h : WellFormed cfg b) :
    (b.state = .closed ∧ b.allow cfg now = (true, b)) ∨
      (b.state = .opened ∧ cfg.Elapsed b.openedAt now ∧ b.allow cfg now = (true, b.promote)) ∨
      (b.state = .opened ∧ ¬ cfg.Elapsed b.openedAt now ∧ b.allow cfg now = (false, b)) ∨
      (b.state = .halfOpen ∧ b.allow cfg now = (false, b)) := by
  cases hb : b.state with
  | closed => exact Or.inl ⟨rfl, allow_of_closed cfg now b hb⟩
  | opened =>
    by_cases he : cfg.Elapsed b.openedAt now
    · exact Or.inr (Or.inl ⟨rfl, he, allow_of_elapsed cfg now b hb he⟩)
    · exact Or.inr (Or.inr (Or.inl ⟨rfl, he, allow_of_not_elapsed cfg now b hb he⟩))
  | halfOpen =>
    exact Or.inr (Or.inr (Or.inr ⟨rfl, allow_of_pending cfg now b hb (h.pending_iff.2 hb)⟩))

theorem allow (h : WellFormed cfg b) : WellFormed cfg (b.allow cfg now).2 := by
  rcases h.allow_cases now with ⟨-, ha⟩ | ⟨hb, -, ha⟩ | ⟨-, -, ha⟩ | ⟨-, ha⟩ <;> rw [ha]
  · exact h
  · exact h.promote hb
  · exact h
  · exact h

theorem recordSuccess (cfg : Settings) (b : CircuitBreaker) :
    WellFormed cfg b.recordSuccess := by
  have := cfg.one_le_threshold
  constructor
  · simp
    omega
  · simp

theorem recordFailure (h : WellFormed cfg b) : WellFormed cfg (b.recordFailure cfg now) := by
  have hc := h.closed_iff
  rcases recordFailure_cases cfg now b with ⟨hb, hs, -⟩ | ⟨hb, hf, hs, -⟩
  · -- opened: a breaker that was HALF_OPEN had its count at the threshold already
    have hle : cfg.threshold ≤ b.failures + 1 := by
      rcases hb with hb | hb
      · have : ¬ (b.failures : ℤ) < cfg.threshold := fun hlt => by simp [hc.2 hlt] at hb
        omega
      · exact hb
    constructor
    · simp only [hs, failures_recordFailure, reduceCtorEq, false_iff]
      push_cast
      omega
    · simp [hs]
  · -- the count is still below the threshold, so the breaker was CLOSED and stays so
    have hclosed : b.state = .closed := hc.2 (by omega)
    constructor
    · simp only [hs, hclosed, failures_recordFailure, true_iff]
      push_cast
      exact hf
    · simp [hs, hclosed]

theorem reset (cfg : Settings) (b : CircuitBreaker) : WellFormed cfg b.reset := by
  have := cfg.one_le_threshold
  constructor
  · simp
    omega
  · simp

theorem preserved (h : WellFormed cfg b) (e : ℚ × Method) : WellFormed cfg (callMethod cfg b e) := by
  rcases e with ⟨now, m⟩
  cases m with
  | allow => exact h.allow now
  | recordSuccess => exact recordSuccess cfg b
  | recordFailure => exact h.recordFailure now
  | reset => exact reset cfg b

end WellFormed

variable (cfg : Settings)

theorem after_concat (es : List (ℚ × Method)) (e : ℚ × Method) :
    after cfg (es ++ [e]) = callMethod cfg (after cfg es) e := by
  simp [after]

theorem wellFormed_after (es : List (ℚ × Method)) : WellFormed cfg (after cfg es) := by
  induction es using List.reverseRecOn with
  | nil => exact WellFormed.init cfg
  | append_singleton es e ih =>
    rw [after_concat]
    exact ih.preserved e

/-- `allow` does not touch the count. -/
theorem failures_allow (now : ℚ) (b : CircuitBreaker) :
    (b.allow cfg now).2.failures = b.failures := by
  unfold allow
  split
  · rfl
  · split_ifs <;> rfl
  · split_ifs <;> rfl

/-- **`_failures` is the number of failures in a row.** -/
theorem failures_after (es : List (ℚ × Method)) :
    (after cfg es).failures = failuresInARow (es.map Prod.snd) := by
  induction es using List.reverseRecOn with
  | nil => rfl
  | append_singleton es e ih =>
    rw [after_concat, List.map_append, List.map_singleton, failuresInARow_concat]
    rcases e with ⟨now, m⟩
    cases m with
    | allow => rw [← ih]; exact failures_allow cfg now _
    | recordSuccess => exact failures_recordSuccess _
    | recordFailure => rw [← ih]; exact failures_recordFailure cfg now _
    | reset => exact failures_reset _

/-- A CLOSED breaker leaves CLOSED exactly on the failure that brings the count to the
threshold. -/
theorem WellFormed.leaves_closed_iff {b : CircuitBreaker} (h : WellFormed cfg b)
    (hb : b.state = .closed) (e : ℚ × Method) :
    (callMethod cfg b e).state ≠ .closed ↔
      e.2 = .recordFailure ∧ (b.failures : ℤ) + 1 = cfg.threshold := by
  have hlt := h.closed_iff.1 hb
  rcases e with ⟨now, m⟩
  cases m with
  | allow => simp [callMethod, allow_of_closed cfg now b hb, hb]
  | recordSuccess => simp [callMethod]
  | recordFailure =>
    have hw := (h.recordFailure now).closed_iff
    rw [failures_recordFailure] at hw
    push_cast at hw
    simp only [callMethod, ne_eq, hw, true_and]
    omega
  | reset => simp [callMethod]

/-- **The representation invariant**, for every configured threshold and cooldown and every
sequence of calls: `_failures` is the number of failures recorded since the last success, reset or
construction; the breaker is CLOSED exactly while it is below the threshold, and leaves CLOSED
exactly on the failure that reaches it; `_half_open_pending` is set exactly in HALF_OPEN, so that
`allow` never finds the breaker HALF_OPEN without a pending probe. -/
theorem representation_invariant (threshold : ℤ) (cooldown : PyFloat) (es : List (ℚ × Method)) :
    let b := after (Settings.init threshold cooldown) es
    b.failures = failuresInARow (es.map Prod.snd) ∧
      (b.state = .closed ↔ (b.failures : ℤ) < max 1 threshold) ∧
      (b.state = .closed → ∀ e, (callMethod (Settings.init threshold cooldown) b e).state ≠ .closed ↔
        e.2 = .recordFailure ∧ (b.failures : ℤ) + 1 = max 1 threshold) ∧
      (b.halfOpenPending = true ↔ b.state = .halfOpen) ∧
      ¬ (b.state = .halfOpen ∧ b.halfOpenPending = false) := by
  intro b
  have h : WellFormed (Settings.init threshold cooldown) b := wellFormed_after _ es
  refine ⟨failures_after _ es, h.closed_iff, fun hb e => h.leaves_closed_iff _ hb e,
    h.pending_iff, ?_⟩
  rintro ⟨hb, hp⟩
  rw [h.pending_iff.2 hb] at hp
  cases hp

end EdgeCache.Breaker
