import EdgeCache.Breaker.Stall
import EdgeCache.Service.Recovery

/-!
# The stall of a replica is bounded

What the breaker is for: while Redis does not answer, the requests of a replica are not to wait for
it again and again. To the breaker, the threads of a replica are workers of
`EdgeCache.Breaker.Calls`, whose steps follow those of the service event by event (`Counted.step`).
So the count of `EdgeCache.Breaker.Stall` is kept along an execution (`Spent`), from any time of the
outage on, and bounds how many lookups and writes of all requests together are let through to Redis
until a later time (`stall_bounded`).
-/

namespace EdgeCache.Breaker

variable {ω : Type*} [Fintype ω] {cfg : Settings}

/-- What the count amounts to at the end of the period. -/
theorem Spent.admitted_le_of_clock {s₀ s : Calls ω} {t₀ t₁ c : ℚ} {W : ℕ} (hs : Spent cfg s₀ t₀ c W s)
    (hW : Fintype.card ω ≤ W) (h01 : t₀ ≤ t₁) (hclock : s.shared.clock ≤ t₁)
    (hcool : ∀ k : ℕ, k * c ≤ t₁ - t₀ → (k : ℤ) ≤ cfg.cooldowns (t₁ - t₀)) :
    (s.shared.admitted : ℤ) ≤
      s₀.shared.admitted + (cfg.threshold + W + cfg.cooldowns (t₁ - t₀)) := by
  have hnonneg : (0 : ℤ) ≤ cfg.cooldowns (t₁ - t₀) := by
    simpa using hcool 0 (by simpa using h01)
  by_cases hb : s.shared.breaker.state = .closed
  · have hcount := hs.closed hb
    have hlt := hs.wellFormed.closed_iff.1 hb
    have hflight := inFlight_le_card s
    have hflight₀ := inFlight_nonneg s₀
    omega
  · obtain ⟨k, hspace, hle, -⟩ := hs.opened hb
    have hk := hcool k (by linarith [hspace t₁ hclock h01])
    omega

end EdgeCache.Breaker

namespace EdgeCache.Service

open Breaker Cache Transition

variable {ω ρ : Type*} [DecidableEq ω] [DecidableEq ρ] {D : Rollout ω ρ}

/-! ## The calls that are let through -/

/-- Event `n` lets a lookup or a write of replica `r` through to Redis. -/
def AdmittedAt (X : Timed (Pool.step (serverStep D)) ℚ) (r : ρ) (n : ℕ) : Prop :=
  D.replica (X.event n).1 = r ∧ ((X.state n).thread (X.event n).1).guard = .allow ∧
    ((X.state (n + 1)).thread (X.event n).1).guard = .redis

instance (X : Timed (Pool.step (serverStep D)) ℚ) (r : ρ) : DecidablePred (AdmittedAt X r) :=
  fun _ => inferInstanceAs (Decidable (_ ∧ _))

/-- From time `F` to time `G`, Redis answers no call of replica `r`, whose breaker is enabled, and
no request of `r` that it answered before is still to report so. -/
structure Stalled (X : Timed (Pool.step (serverStep D)) ℚ) (r : ρ) (F G : ℚ) : Prop
    extends Unreachable X r F G where
  boot : ∃ t, X.state 0 = boot D t
  cbEnabled : (D.config r).guard.cbEnabled = true
  cooldown : PyFloat.lt (.fin 0) (D.config r).guard.breaker.cooldown = true
  /-- The clock of the replica runs with the time. -/
  clock : ∃ offset, ∀ n env, D.replica (X.event n).1 = r → (X.event n).2 = .go env →
    env.now = X.time n + offset

/-- The threads of replica `r` before event `n`, as workers of the breaker that have been counted
from time `s` on. -/
structure Counted (X : Timed (Pool.step (serverStep D)) ℚ) (r : ρ) (offset s : ℚ) (n : ℕ)
    (q : Calls {w // D.replica w = r}) : Prop where
  breaker : q.shared.breaker = ((X.state n).shared.world.proc r).breaker
  calls : ∀ w, (q.thread w).isSome = ((X.state n).thread w).guard.calling
  admitted : q.shared.admitted = ((Finset.Ico (X.count s) n).filter (AdmittedAt X r)).card
  clock : ∀ u, s ≤ u → n ≤ X.count u → q.shared.clock ≤ u + offset

variable {X : Timed (Pool.step (serverStep D)) ℚ} {r : ρ} {F G s t offset : ℚ}

theorem card_admitted_succ {m n : ℕ} (hmn : m ≤ n) :
    ((Finset.Ico m (n + 1)).filter (AdmittedAt X r)).card =
      ((Finset.Ico m n).filter (AdmittedAt X r)).card + if AdmittedAt X r n then 1 else 0 := by
  rw [Finset.card_filter, Finset.card_filter, Finset.sum_Ico_succ_top hmn]

/-- **An event is nothing to the workers of the breaker, or one of their steps**, which is no
success if no call is about to report one. -/
theorem Counted.step (hcb : (D.config r).guard.cbEnabled = true)
    (hclock : ∀ n env, D.replica (X.event n).1 = r → (X.event n).2 = .go env →
      env.now = X.time n + offset) {n : ℕ} (hn : s < X.time n)
    (hnone : NoneUp (D := D) r (X.state n)) {q : Calls {w // D.replica w = r}}
    (hq : Counted X r offset s n q) :
    ∃ q', Counted X r offset s (n + 1) q' ∧ (q' = q ∨ ∃ e : {w // D.replica w = r} × CallAct,
      s + offset ≤ e.2.now ∧ e.2.op ≠ .success ∧
        Pool.step (callStep (D.config r).guard.breaker) q e = some q') := by
  have hmn : X.count s ≤ n := X.count_le_iff.2 hn
  have hlater : ∀ u, s ≤ u → n + 1 ≤ X.count u → q.shared.clock ≤ u + offset := fun u hu hnu =>
    hq.clock u hu (Nat.le_of_succ_le hnu)
  obtain ⟨reply, hreply⟩ := (X.event n).2.exists_reply
  obtain ⟨hv, hproc, hothers⟩ | ⟨hv, hothers, now, hnow, heff⟩ := guard_step hreply (X.step_eq n) r
  · refine ⟨q, ⟨hproc ▸ hq.breaker, fun w => ?_, ?_, hlater⟩, Or.inl rfl⟩
    · rw [hothers w w.2]
      exact hq.calls w
    · rw [card_admitted_succ hmn, if_neg fun ha => hv ha.1]
      exact hq.admitted
  let v : {w // D.replica w = r} := ⟨(X.event n).1, hv⟩
  have htime : ((X.state n).thread v).guard.rank ≠ 0 → now = X.time n + offset := fun hrank => by
    obtain ⟨env, henv, rfl⟩ := hnow hrank
    exact hclock n env hv henv
  obtain ⟨gate, call, hbreaker, hcalls, hadmitted, hstep⟩ := heff.callStep (w := v) hcb hq.breaker
    (hq.calls v) (fun hrank => htime hrank ▸ hq.clock _ hn.le (X.lt_count_iff.2 le_rfl).le) (hnone v hv)
  refine ⟨⟨gate, Function.update q.thread v call⟩, ⟨hbreaker, fun w => ?_, ?_, ?_⟩, ?_⟩
  · rcases eq_or_ne w v with rfl | hw
    · simpa using hcalls
    · have hne : (w : ω) ≠ (X.event n).1 := fun heq => hw (Subtype.ext heq)
      simpa [hw, hothers w hne] using hq.calls w
  · rw [card_admitted_succ hmn, ← hq.admitted]
    simp only [hadmitted, AdmittedAt, hv, true_and]
    rfl
  · obtain ⟨rfl, -⟩ | ⟨hrank, rfl, -⟩ := hstep
    · exact hlater
    · intro u _ hnu
      have hle : X.time n ≤ u := X.lt_count_iff.1 hnu
      simp only [htime hrank]
      linarith
  · obtain ⟨rfl, rfl⟩ | ⟨hrank, -, op, hop, hstep⟩ := hstep
    · exact Or.inl (by simp)
    · refine Or.inr ⟨(v, ⟨now, op⟩), ?_, hop, Pool.step_eq_some.2 ⟨gate, call, hstep, rfl⟩⟩
      have := htime hrank
      simp only
      linarith

/-! ## Along an execution -/

/-- **The stall of a replica is bounded.** In every execution of the service: while Redis answers no
call of a replica whose breaker is enabled, and none of its requests has an earlier answer still to
report, it lets through to Redis, in any period of length `d`, at most `threshold + W + ⌊d /
cooldown⌋` lookups and writes, `W` being the number of its threads, whatever is asked of it and
whatever the others do. -/
theorem stall_bounded [Fintype {w // D.replica w = r}] (h : Stalled X r F G) (hF : F ≤ s) (hst : s ≤ t)
    (hG : t ≤ G) : (((X.during s t).filter (AdmittedAt X r)).card : ℤ) ≤
      (D.config r).guard.breaker.threshold + Fintype.card {w // D.replica w = r} +
        (D.config r).guard.breaker.cooldowns (t - s) := by
  obtain ⟨offset, hclock⟩ := h.clock
  obtain ⟨t₀, hboot⟩ := h.boot
  have hw := wellFormed_server (hboot ▸ X.reachable (X.count s)) h.strict
  have hst' : s + offset ≤ t + offset := by linarith
  obtain ⟨c, hc, hcool⟩ := exists_spacing h.cooldown (sub_nonneg.2 hst')
  have hnone : NoneUp (D := D) r (X.stateAt s) :=
    X.invariant_from h.reported hF fun n hn hns hnone =>
      (h.toUnreachable.step hn (hns.trans (hst.trans hG)) hnone).1
  -- the workers at time `s`, with the calls that are in flight
  let q₀ : Calls {w // D.replica w = r} :=
    ⟨⟨((X.stateAt s).shared.world.proc r).breaker, s + offset, 0, none⟩, fun w =>
      if ((X.stateAt s).thread w).guard.calling then some ⟨w, 0, s + offset, false⟩ else none⟩
  have hcounted₀ : Counted X r offset s (X.count s) q₀ := by
    refine ⟨rfl, fun w => ?_, by simp [q₀], fun u hu _ => by simpa [q₀] using hu⟩
    change (q₀.thread w).isSome = ((X.stateAt s).thread w).guard.calling
    cases hcalling : ((X.stateAt s).thread w).guard.calling <;> simp [q₀, hcalling]
  let P : ℕ → Prop := fun n => NoneUp (D := D) r (X.state n) ∧ ∃ q, Counted X r offset s n q ∧
    Spent (D.config r).guard.breaker q₀ (s + offset) c (Fintype.card {w // D.replica w = r}) q
  have hend : P (X.count t) := by
    refine X.history_from (P := P) ⟨hnone, q₀, hcounted₀, spent_start hw _ _ _⟩ hst ?_
    rintro n hn hnt ⟨hnone, q, hcounted, hspent⟩
    have hnG : X.time n ≤ G := hnt.trans hG
    obtain ⟨q', hcounted', rfl | ⟨e, hnow, hop, he⟩⟩ := hcounted.step h.cbEnabled hclock hn hnone
    all_goals refine ⟨(h.toUnreachable.step (hF.trans_lt hn) hnG hnone).1, _, hcounted', ?_⟩
    · exact hspent
    · exact spent_step hc le_rfl hspent hnow hop he
  obtain ⟨-, q, hcounted, hspent⟩ := hend
  have hle := hspent.admitted_le_of_clock le_rfl hst' (hcounted.clock t hst le_rfl) hcool
  rw [hcounted.admitted, add_sub_add_right_eq_sub] at hle
  simpa [q₀, Timed.during] using hle

/-- In the second in which it finds out that Redis is down, `solo` makes no more than three
calls. -/
theorem stall_bounded_solo : ∃ X : Timed (Pool.step (serverStep solo)) ℚ,
    redisUpScraped X () (-3) = 0 ∧
      (((X.during (-4) (-3)).filter (AdmittedAt X ())).card : ℤ) ≤ 1 + 1 + 1 := by
  obtain ⟨X, hX, hdown, hprompt, htime⟩ := exists_recovery
  have hstart : X.stateAt (-4) = X.state 0 := X.stateAt_of_lt (by linarith)
  have hstalled : Stalled X () (-4) (-3) := by
    refine ⟨⟨rfl, fun n _ hn _ env henv => ⟨false, ?_⟩, fun w _ => ?_⟩, hX.boot, rfl, by decide +kernel,
      hX.clock⟩
    · exact (hprompt.go henv).2.trans (if_neg (not_lt.2 hn))
    · obtain ⟨t, ht⟩ := hX.boot
      rw [hstart, ht]
      rintro ⟨⟩
  have hcooldowns : (solo.config ()).guard.breaker.cooldowns (-3 - -4) = 1 := by decide +kernel
  have hle := stall_bounded hstalled le_rfl (by norm_num) le_rfl
  rw [hcooldowns] at hle
  exact ⟨X, hdown, hle⟩

end EdgeCache.Service
