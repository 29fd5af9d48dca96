import EdgeCache.Breaker.Calls
import Mathlib.Data.Rat.Floor

/-!
# The stall during an outage is bounded

While every recorded outcome is a failure, the number of Redis calls that `allow` admits over a
period is at most the threshold, plus the number of workers, plus one for each cooldown that fits
into the period (`admitted_le`), however many calls the workers ask for.

The count has two phases (`Spent`). As long as the breaker has stayed CLOSED, each call admitted is
either still in flight or one of the failures counted, which are fewer than the threshold. Once it
has opened, the calls admitted are probes, and the `k`-th of them is a cooldown after the `k -
1`-st: the failures that come in between, late ones included, only push the next probe away.
-/

namespace EdgeCache.Breaker

open CircuitBreaker Transition

variable {ω : Type*} [Fintype ω] {cfg : Settings}

/-- The number of calls in flight. -/
def inFlight (s : Calls ω) : ℤ := Pool.tally (fun t => if t.isSome then 1 else 0) s.thread

/-- The number of times that the cooldown fits into a period of length `d`. -/
def Settings.cooldowns (cfg : Settings) (d : ℚ) : ℤ :=
  match cfg.cooldown with
  | .fin c => ⌊d / c⌋
  | _ => 0

theorem inFlight_nonneg (s : Calls ω) : 0 ≤ inFlight s :=
  Pool.tally_nonneg _ fun w => by split_ifs <;> simp

theorem inFlight_le_card (s : Calls ω) : inFlight s ≤ Fintype.card ω :=
  Pool.tally_le_card _ fun w => by split_ifs <;> simp

/-- A spacing that the cooldown guarantees, and which fits into a period of length `d` no more often
than the cooldown. -/
theorem exists_spacing (hpos : PyFloat.lt (.fin 0) cfg.cooldown = true) {d : ℚ} (hd : 0 ≤ d) :
    ∃ c : ℚ, (∀ t now, cfg.Elapsed t now → t + c ≤ now) ∧
      ∀ k : ℕ, k * c ≤ d → (k : ℤ) ≤ cfg.cooldowns d := by
  rcases PyFloat.eq_fin_or_posInf_of_zero_le cfg.zero_le_cooldown with ⟨c, -, hc⟩ | hc
  · have hc0 : 0 < c := by
      rw [hc] at hpos
      exact of_decide_eq_true hpos
    refine ⟨c, fun t now h => (Settings.elapsed_iff_of_cooldown hc).1 h, fun k hk => ?_⟩
    rw [Settings.cooldowns, hc]
    exact Int.le_floor.2 (by rw [le_div_iff₀ hc0]; exact_mod_cast hk)
  · -- no promotion at all: any spacing longer than the period will do
    refine ⟨d + 1, fun t now h => absurd h (Settings.not_elapsed_of_posInf hc), fun k hk => ?_⟩
    rw [Settings.cooldowns, hc]
    rcases Nat.eq_zero_or_pos k with rfl | hk0
    · simp
    · have hk1 : (1 : ℚ) ≤ k := by exact_mod_cast hk0
      nlinarith

/-- The calls admitted since the state `s₀`, of which `k` after the breaker opened, in a period that
starts at `t₀`, for `W` workers and probes at least `c` apart. -/
structure Spent (cfg : Settings) (s₀ : Calls ω) (t₀ c : ℚ) (W : ℕ) (s : Calls ω) : Prop where
  wellFormed : WellFormed cfg s.shared.breaker
  /-- CLOSED since the start of the period: each call admitted is in flight, or has failed. -/
  closed : s.shared.breaker.state = .closed →
    (s.shared.admitted : ℤ) + inFlight s₀ + s₀.shared.breaker.failures =
      s₀.shared.admitted + s.shared.breaker.failures + inFlight s
  /-- Afterwards: `k` probes, the last of them at least `k` cooldowns after the start. -/
  opened : s.shared.breaker.state ≠ .closed → ∃ k : ℕ,
    (∀ now, s.shared.clock ≤ now → t₀ ≤ now → t₀ + k * c ≤ now) ∧
    (s.shared.admitted : ℤ) ≤ s₀.shared.admitted + (cfg.threshold + W + k) ∧
    (s.shared.breaker.state = .opened → t₀ + k * c ≤ s.shared.breaker.openedAt ∨
      (s.shared.admitted : ℤ) + 1 ≤ s₀.shared.admitted + (cfg.threshold + W + k))

theorem spent_start {s : Calls ω} (hw : WellFormed cfg s.shared.breaker) (t₀ c : ℚ) (W : ℕ) :
    Spent cfg s t₀ c W s where
  wellFormed := hw
  closed := fun _ => by ring
  opened := fun _ => by
    have := cfg.one_le_threshold
    exact ⟨0, fun now _ h => by simpa using h, by push_cast; omega,
      fun _ => Or.inr (by push_cast; omega)⟩

variable [DecidableEq ω]

/-- One step, which is not a success, of the count. -/
theorem spent_step {s₀ s s' : Calls ω} {e : ω × CallAct} {t₀ c : ℚ} {W : ℕ}
    (hc : ∀ t now, cfg.Elapsed t now → t + c ≤ now) (hW : Fintype.card ω ≤ W)
    (hs : Spent cfg s₀ t₀ c W s) (ht₀ : t₀ ≤ e.2.now) (hfail : e.2.op ≠ .success)
    (h : Pool.step (callStep cfg) s e = some s') : Spent cfg s₀ t₀ c W s' := by
  have hw := hs.wellFormed
  have hwork := inFlight_le_card s
  have hflight := inFlight_nonneg s₀
  have hw' := wellFormed_step hw h
  obtain ⟨w, a⟩ := e
  obtain ⟨hclock, old, g, t, hold, heff, rfl⟩ := step_effect hw h
  have htally : inFlight (⟨g, Function.update s.thread w t⟩ : Calls ω) =
      inFlight s + ((if t.isSome then 1 else 0) - if old.isSome then 1 else 0) := by
    rw [inFlight, Pool.tally_update, hold, inFlight]
  cases heff with
  | grant _ hb =>
    refine ⟨hw', fun _ => ?_, fun hne => absurd hb hne⟩
    have := hs.closed hb
    rw [htally]
    push_cast
    simp
    omega
  | promote _ hb he =>
    obtain ⟨k, hspace, hle, hopen⟩ := hs.opened (by simp [hb])
    refine ⟨hw', fun h => by simp at h, fun _ => ?_⟩
    rcases hopen hb with ho | ho
    · -- a cooldown after the breaker last opened: one more probe, one more cooldown
      refine ⟨k + 1, fun now hnow _ => ?_, by push_cast; omega, fun h => by simp at h⟩
      have := hc _ _ he
      push_cast
      linarith
    · -- the probe that the period starts with
      exact ⟨k, fun now hnow ht => hspace now (hclock.trans hnow) ht, by push_cast; omega,
        fun h => by simp at h⟩
  | refuse _ hb =>
    have hne : s.shared.breaker.state ≠ .closed := by
      rcases hb with hb | ⟨hb, -⟩ <;> simp [hb]
    obtain ⟨k, hspace, hle, hopen⟩ := hs.opened hne
    exact ⟨hw', fun h => absurd h hne,
      fun _ => ⟨k, fun now hnow ht => hspace now (hclock.trans hnow) ht, hle, hopen⟩⟩
  | success _ hop => exact absurd hop hfail
  | trip _ _ hle hst ho =>
    refine ⟨hw', fun h => by simp [hst] at h, fun _ => ?_⟩
    by_cases hb : s.shared.breaker.state = .closed
    · -- the breaker opens: fewer calls than the threshold have failed, the others are in flight
      have hcount := hs.closed hb
      have hlt := hw.closed_iff.1 hb
      refine ⟨0, fun now _ ht => by simpa using ht, by push_cast; omega, fun _ => Or.inl ?_⟩
      simpa [ho] using ht₀
    · obtain ⟨k, hspace, hadm, -⟩ := hs.opened hb
      exact ⟨k, fun now hnow ht => hspace now (hclock.trans hnow) ht, hadm,
        fun _ => Or.inl ((hspace a.now hclock ht₀).trans_eq ho.symm)⟩
  | count _ _ hb _ hst =>
    refine ⟨hw', fun _ => ?_, fun hne => absurd hst hne⟩
    have := hs.closed hb
    rw [htally, failures_recordFailure]
    push_cast
    simp
    omega

theorem spent_run {s₀ s s' : Calls ω} {es : List (ω × CallAct)} {t₀ c : ℚ} {W : ℕ}
    (hc : ∀ t now, cfg.Elapsed t now → t + c ≤ now) (hW : Fintype.card ω ≤ W)
    (hs : Spent cfg s₀ t₀ c W s) (hes : ∀ e ∈ es, t₀ ≤ e.2.now ∧ e.2.op ≠ .success)
    (h : run (Pool.step (callStep cfg)) s es = some s') : Spent cfg s₀ t₀ c W s' := by
  induction es generalizing s with
  | nil =>
    obtain rfl := Option.some.inj h
    exact hs
  | cons e es ih =>
    obtain ⟨s₁, he, h⟩ := (run_cons_eq_some _).1 h
    obtain ⟨ht, hop⟩ := hes e (by simp)
    exact ih (spent_step hc hW hs ht hop he) (fun d hd => hes d (by simp [hd])) h

/-- **The stall is bounded.** Let at most `W` workers run from a reachable state over the period
from `t₀` to `t₁`, and let every outcome that is recorded in it be a failure. Then at most
`threshold + W + ⌊(t₁ - t₀) / cooldown⌋` calls are admitted. -/
theorem admitted_le {t t₀ t₁ : ℚ} {W : ℕ} {s s' : Calls ω} {es : List (ω × CallAct)}
    (hpos : PyFloat.lt (.fin 0) cfg.cooldown = true) (hW : Fintype.card ω ≤ W)
    (hreach : Reachable (Pool.step (callStep cfg)) (start ω t) s) (hs : s.shared.clock ≤ t₀)
    (h01 : t₀ ≤ t₁) (htime : ∀ e ∈ es, t₀ ≤ e.2.now ∧ e.2.now ≤ t₁)
    (hfail : ∀ e ∈ es, e.2.op ≠ .success)
    (h : run (Pool.step (callStep cfg)) s es = some s') :
    (s'.shared.admitted : ℤ) ≤
      s.shared.admitted + (cfg.threshold + W + cfg.cooldowns (t₁ - t₀)) := by
  have hw := wellFormed_run hreach
  obtain ⟨c, hc, hcool⟩ := exists_spacing hpos (sub_nonneg.2 h01)
  have hspent := spent_run hc hW (spent_start hw t₀ c W)
    (fun e he => ⟨(htime e he).1, hfail e he⟩) h
  have hnonneg : (0 : ℤ) ≤ cfg.cooldowns (t₁ - t₀) := by
    simpa using hcool 0 (by simpa using h01)
  by_cases hb : s'.shared.breaker.state = .closed
  · have hcount := hspent.closed hb
    have hlt := hspent.wellFormed.closed_iff.1 hb
    have := inFlight_le_card s'
    have := inFlight_nonneg s
    omega
  · obtain ⟨k, hspace, hle, -⟩ := hspent.opened hb
    have hclock := clock_le_of_run hw (hs.trans h01) (fun e he => (htime e he).2) h
    have hk := hcool k (by linarith [hspace t₁ hclock h01])
    omega

/-- Two workers, threshold 1 and a cooldown of 5: three calls between times 0 and 7, of at most
four. -/
theorem admitted_le_four : ∃ s' : Calls (Fin 2),
    run (Pool.step (callStep (Settings.init 1 (.fin 5)))) (start (Fin 2) 0)
      [(0, ⟨0, .allow⟩), (1, ⟨0, .allow⟩), (0, ⟨1, .failure⟩), (1, ⟨1, .failure⟩),
        (0, ⟨2, .allow⟩), (1, ⟨6, .allow⟩), (0, ⟨7, .allow⟩)] = some s' ∧
      s'.shared.admitted = 3 ∧ (s'.shared.admitted : ℤ) ≤ 0 + (1 + 2 + 1) := by
  obtain ⟨s', hs, hobs⟩ := Option.map_eq_some_iff.1 (show
    (run (Pool.step (callStep (Settings.init 1 (.fin 5)))) (start (Fin 2) 0)
      [(0, ⟨0, .allow⟩), (1, ⟨0, .allow⟩), (0, ⟨1, .failure⟩), (1, ⟨1, .failure⟩),
        (0, ⟨2, .allow⟩), (1, ⟨6, .allow⟩), (0, ⟨7, .allow⟩)]).map
      (fun s => s.shared.admitted) = some 3 by decide +kernel)
  have hfloor : (Settings.init 1 (.fin 5)).cooldowns (7 - 0) = 1 := by decide +kernel
  refine ⟨s', hs, hobs, ?_⟩
  have h := admitted_le (W := 2) (by decide +kernel) (by simp) (Reachable.refl _)
    (show (start (Fin 2) 0).shared.clock ≤ 0 from le_rfl) (show (0 : ℚ) ≤ 7 by norm_num)
    (by decide +kernel) (by decide) hs
  rwa [hfloor] at h

end EdgeCache.Breaker
