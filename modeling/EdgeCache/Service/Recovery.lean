import EdgeCache.Service.RedisDown

/-!
# The service recovers

When Redis answers again, a replica is to be back to normal without being restarted. That takes
until the calls that have failed are over, and the cooldown; the next call that comes to the breaker
is then a probe, or finds one out. Its success closes the breaker, but calls that were refused until
then may still report that Redis is down. When they are over, too, the next call that reports has
`redis_up` at 1 for good, and the alert `EdgeCacheRedisDown` is not raised any more
(`redis_recovers`).

So the time that it takes depends on how long calls last, and on how often they are made
(`Answering`). The bound is reached in stages, one for each of these steps.
-/

namespace EdgeCache.Service

open Alerts Breaker Cache Transition

variable {ω ρ : Type*} [DecidableEq ω] [DecidableEq ρ] {D : Rollout ω ρ}

/-! ## The breaker of a replica -/

omit [DecidableEq ω] [DecidableEq ρ] in
/-- A thread of the service, and the same thread of the fleet. -/
theorem guard_of_serves {F : Prop} {r : ρ} {h : Handling} {t : Worker} (hs : h.Serves D F r t) :
    t.guard = h.guard := by
  have hrest : AtRest t → t.guard = .done .skipped := by
    rintro ⟨last, rfl⟩
    rfl
  cases h with
  | cache id t' =>
    obtain ⟨rfl, -⟩ := hs
    rfl
  | idle last => exact hrest hs.atRest_of_idle
  | chaos id read =>
    cases read with
    | latencySleep | rateDraw => exact hrest hs.2
    | latencyTest | rateTest | bypass => exact hrest hs
  | originFetch id result => exact hrest ⟨_, hs.1⟩
  | observe o | observeAgain o | countRequest o => exact hrest (Observation.Serves.atRest hs)
  | finish id response => exact hrest (HasEnded.atRest hs)
  | updating | asdict => exact hrest hs.2
  | segment | healthz | admin | invalid => exact hrest hs

section Reachable

variable {t : ρ → ℚ} {s : Server ω ρ} {r : ρ}
  (h : Reachable (Pool.step (serverStep D)) (boot D t) s) (hr : (D.config r).backend = .redis)

include h hr

theorem wellFormed_server : WellFormed (D.config r).guard.breaker (s.shared.world.proc r).breaker := by
  obtain ⟨q, hq, hM, -⟩ := refines_fleet h
  have := wellFormed_replica hr hq
  rwa [hM.world] at this

theorem exists_calling_of_server_halfOpen (hcb : (D.config r).guard.cbEnabled = true)
    (hs : (s.shared.world.proc r).breaker.state = .halfOpen) :
    ∃ w, D.replica w = r ∧ (s.thread w).guard.calling = true := by
  obtain ⟨q, hq, hM, hruns⟩ := refines_fleet h
  rw [← hM.world] at hs
  obtain ⟨w, hw, hcalling⟩ := exists_calling_of_replica_halfOpen hr hcb hq hs
  exact ⟨w, hw, guard_of_serves (hruns w) ▸ hcalling⟩

end Reachable

/-! ## What is assumed -/

/-- From time `F` to time `G`, Redis answers the calls of replica `r`, each of which takes at most
`latency` seconds; and a call comes to the breaker in any `pause` seconds. -/
structure Answering (X : Timed (Pool.step (serverStep D)) ℚ) (r : ρ)
    (F G cooldown latency pause : ℚ) : Prop where
  boot : ∃ t, X.state 0 = boot D t
  strict : (D.config r).backend = .redis
  cooldown : (D.config r).guard.breaker.cooldown = .fin cooldown
  /-- The clock of the replica runs with the time. -/
  clock : ∃ offset, ∀ n env, D.replica (X.event n).1 = r → (X.event n).2 = .go env →
    env.now = X.time n + offset
  answers : ∀ n, F < X.time n → X.time n ≤ G → D.replica (X.event n).1 = r →
    (X.event n).2.RedisAnswers
  latency_nonneg : 0 ≤ latency
  ends : ∀ w, D.replica w = r → ∀ t, F ≤ t → t + latency ≤ G →
    ∃ u, t ≤ u ∧ u ≤ t + latency ∧ ((X.stateAt u).thread w).guard.rank = 0
  pause_nonneg : 0 ≤ pause
  comes : ∀ t, F ≤ t → t + pause ≤ G → ∃ n, t < X.time n ∧ X.time n ≤ t + pause ∧
    D.replica (X.event n).1 = r ∧ ((X.state n).thread (X.event n).1).guard = .allow

namespace Answering

variable {X : Timed (Pool.step (serverStep D)) ℚ} {r : ρ} {F G cooldown latency pause : ℚ}
  (h : Answering X r F G cooldown latency pause)

include h

theorem cooldown_nonneg : 0 ≤ cooldown := by
  have := (D.config r).guard.breaker.zero_le_cooldown
  rwa [h.cooldown, PyFloat.le_fin, decide_eq_true_iff] at this

theorem reachable (n : ℕ) : ∃ t, Reachable (Pool.step (serverStep D)) (Service.boot D t) (X.state n) := by
  obtain ⟨t, ht⟩ := h.boot
  exact ⟨t, ht ▸ X.reachable n⟩

/-- What an event does to the replica, while Redis answers it. -/
theorem guard_step {n : ℕ} (hF : F < X.time n) (hG : X.time n ≤ G) :
    ((X.state (n + 1)).shared.world.proc r = (X.state n).shared.world.proc r ∧
        ∀ w, D.replica w = r → ((X.state (n + 1)).thread w).guard = ((X.state n).thread w).guard) ∨
      ∃ v kept now, D.replica v = r ∧
        (∀ w, w ≠ v → ((X.state (n + 1)).thread w).guard = ((X.state n).thread w).guard) ∧
        GuardEffect (D.config r).guard now (.answers kept) ((X.state n).shared.world.proc r)
          ((X.state n).thread v).guard ((X.state (n + 1)).shared.world.proc r)
          ((X.state (n + 1)).thread v).guard := by
  have hanswers := h.answers n hF hG
  have he := X.step_eq n
  rcases hevent : X.event n with ⟨v, a⟩
  rw [hevent] at hanswers he
  by_cases hv : D.replica v = r
  · obtain ⟨kept, hreply⟩ := (hanswers hv).reply
    obtain ⟨hne, -⟩ | ⟨-, hothers, now, -, heff⟩ := Service.guard_step hreply he r
    · exact absurd hv hne
    · exact Or.inr ⟨v, kept, now, hv, hothers, heff⟩
  · obtain ⟨reply, hreply⟩ := a.exists_reply
    obtain ⟨-, hproc, hothers⟩ | ⟨heq, -⟩ := Service.guard_step hreply he r
    · exact Or.inl ⟨hproc, hothers⟩
    · exact absurd heq hv

/-! ## The calls that have failed are over -/

/-- After `latency` seconds, no call is about to report a failure. -/
theorem ne_failure {n : ℕ} (hn : X.count (F + latency) ≤ n) (hG : F + latency ≤ G)
    (hnG : n ≤ X.count G) {w : ω} (hw : D.replica w = r) :
    ((X.state n).thread w).guard ≠ .failure := by
  obtain ⟨u, hFu, hu, hrank⟩ := h.ends w hw F le_rfl hG
  refine X.invariant_between (I := fun s => (s.thread w).guard ≠ .failure) (m := X.count u) ?_
    ((X.count_mono hu).trans hn) fun k hk hkn hne => ?_
  · intro heq
    change ((X.stateAt u).thread w).guard = _ at heq
    rw [heq] at hrank
    cases hrank
  · have hF : F < X.time k := hFu.trans_lt (X.count_le_iff.1 hk)
    have hkG : X.time k ≤ G := X.lt_count_iff.1 (hkn.trans_le hnG)
    obtain ⟨-, hothers⟩ | ⟨v, kept, now, -, hothers, heff⟩ := h.guard_step hF hkG
    · exact hothers w hw ▸ hne
    · rcases eq_or_ne w v with rfl | hwv
      · exact heff.ne_failure
      · exact hothers w hwv ▸ hne

/-- If the breaker is not closed, it was opened before that. -/
theorem exists_openedAt_le (hG : F + latency ≤ G) : ∃ offset,
    (∀ n env, D.replica (X.event n).1 = r → (X.event n).2 = .go env → env.now = X.time n + offset) ∧
      ∀ n, X.count (F + latency) ≤ n → n ≤ X.count G →
        ((X.state n).shared.world.proc r).breaker.state ≠ .closed →
          ((X.state n).shared.world.proc r).breaker.openedAt ≤ F + latency + offset := by
  obtain ⟨offset, hclock⟩ := h.clock
  refine ⟨offset, hclock, fun n hn hnG => ?_⟩
  let I : Server ω ρ → Prop := fun s => (s.shared.world.proc r).breaker.state ≠ .closed →
    (s.shared.world.proc r).breaker.openedAt ≤ F + latency + offset
  have hinit : I (X.state 0) := by
    obtain ⟨t, ht⟩ := h.boot
    intro hne
    rw [ht] at hne
    simp only [Service.boot, launch, procInit] at hne
    cases hb : (D.config r).backend <;> simp [hb, Proc.init] at hne
  -- a step that fails, if any, is no later than that
  have hstep : ∀ k, k < n → I (X.state k) → I (X.state (k + 1)) := fun k hkn hI => by
    obtain ⟨reply, hreply⟩ := (X.event k).2.exists_reply
    obtain ⟨-, hproc, -⟩ | ⟨hv, -, now, hnow, heff⟩ :=
      Service.guard_step hreply (X.step_eq k) r
    · intro hne
      rw [hproc] at hne ⊢
      exact hI hne
    · refine heff.openedAt (fun hfailure => ?_) hI
      obtain ⟨env, henv, rfl⟩ := hnow (by simp [hfailure, Guard.rank])
      rw [hclock k env hv henv]
      have hle : X.time k ≤ F + latency := X.lt_count_iff.1 (not_le.1 fun hk =>
        h.ne_failure hk hG (hkn.le.trans hnG) hv hfailure)
      linarith
  exact X.invariant_between (I := I) hinit n.zero_le fun k _ hkn => hstep k hkn

/-! ## A call is admitted -/

/-- The next call that comes to the breaker after the cooldown is admitted, or a probe is out. -/
theorem exists_calling (hG : F + latency + cooldown + pause ≤ G) :
    ∃ n w, F + latency < X.time n ∧ X.time n ≤ F + latency + cooldown + pause ∧ D.replica w = r ∧
      ((X.state (n + 1)).thread w).guard.calling = true := by
  have hcooldown := h.cooldown_nonneg
  have hpause := h.pause_nonneg
  have hlatency := h.latency_nonneg
  obtain ⟨n, hn, hnP, hr, hallow⟩ := h.comes (F + latency + cooldown) (by linarith) hG
  have hFn : F + latency < X.time n := by linarith
  obtain ⟨offset, hclock, hopened⟩ := h.exists_openedAt_le (by linarith)
  obtain ⟨t, hreach⟩ := h.reachable n
  have hw := wellFormed_server hreach h.strict
  obtain ⟨reply, hreply⟩ := (X.event n).2.exists_reply
  obtain ⟨hne, -⟩ | ⟨-, hothers, now, hnow, heff⟩ := Service.guard_step hreply (X.step_eq n) r
  · exact absurd hr hne
  obtain ⟨env, henv, rfl⟩ := hnow (by simp [hallow, Guard.rank])
  have helapsed : ((X.state n).shared.world.proc r).breaker.state = .opened →
      (D.config r).guard.breaker.Elapsed ((X.state n).shared.world.proc r).breaker.openedAt
        env.now := fun hstate => by
    rw [Settings.elapsed_iff_of_cooldown h.cooldown, hclock n env hr henv]
    have := hopened n (X.count_le_iff.2 hFn) (X.lt_count_iff.2 (by linarith)).le (by simp [hstate])
    linarith
  rw [hallow] at heff
  rcases heff.admitted hw helapsed with hcalling | ⟨hcb, hhalf⟩
  · exact ⟨n, _, hFn, hnP, hr, hcalling⟩
  · obtain ⟨w, hwr, hcalling⟩ := exists_calling_of_server_halfOpen hreach h.strict hcb hhalf
    have hne : w ≠ (X.event n).1 := fun heq => by
      rw [heq, hallow] at hcalling
      cases hcalling
    exact ⟨n, w, hFn, hnP, hwr, hothers w hne ▸ hcalling⟩

/-! ## The breaker closes -/

/-- When that call is over, the breaker has recovered, for good. -/
theorem recovered (hG : F + 2 * latency + cooldown + pause ≤ G) {n : ℕ}
    (hn : X.count (F + 2 * latency + cooldown + pause) ≤ n) (hnG : n ≤ X.count G) :
    Recovered ((X.state n).shared.world.proc r).breaker := by
  have hlatency := h.latency_nonneg
  have hcooldown := h.cooldown_nonneg
  have hpause := h.pause_nonneg
  obtain ⟨m, w, hFm, hm, hw, hcalling⟩ := h.exists_calling (by linarith)
  obtain ⟨u, hmu, hu, hrank⟩ := h.ends w hw (X.time m) (by linarith) (by linarith)
  have hmcount : m + 1 ≤ X.count u := X.lt_count_iff.2 hmu
  have hucount : X.count u ≤ n := (X.count_mono (by linarith)).trans hn
  let I : Server ω ρ → Prop := fun s =>
    (s.thread w).guard.calling = true ∨ Recovered (s.shared.world.proc r).breaker
  have hstep : ∀ k, m + 1 ≤ k → k < n → I (X.state k) → I (X.state (k + 1)) ∧
      (Recovered ((X.state k).shared.world.proc r).breaker →
        Recovered ((X.state (k + 1)).shared.world.proc r).breaker) := fun k hk hkn hI => by
    have hFk : F + latency < X.time k := hFm.trans_le (X.monotone_time (Nat.le_of_succ_le hk))
    have hkG : X.time k ≤ G := X.lt_count_iff.1 (hkn.trans_le hnG)
    obtain ⟨hproc, hothers⟩ | ⟨v, kept, now, hv, hothers, heff⟩ := h.guard_step (by linarith) hkG
    · simp only [I, hproc, hothers w hw]
      exact ⟨hI, id⟩
    · obtain ⟨hrecovered, hclose⟩ := heff.calling
        (h.ne_failure (X.count_le_iff.2 hFk) (by linarith) (hkn.le.trans hnG) hv)
      refine ⟨hI.elim (fun hcalling => ?_) fun hp => Or.inr (hrecovered hp), hrecovered⟩
      rcases eq_or_ne w v with rfl | hwv
      · exact hclose hcalling
      · exact Or.inl (hothers w hwv ▸ hcalling)
  have hover : I (X.state (X.count u)) :=
    X.invariant_between (I := I) (Or.inl hcalling) hmcount fun k hk hku hI =>
      (hstep k hk (hku.trans_le hucount) hI).1
  have hclosed : Recovered ((X.state (X.count u)).shared.world.proc r).breaker :=
    hover.resolve_left fun hcalling => by
      have hdone := Guard.calling_of_rank hrank
      exact absurd (hdone.symm.trans hcalling) Bool.false_ne_true
  exact X.invariant_between (I := fun s => Recovered (s.shared.world.proc r).breaker) hclosed hucount
    fun k hk hkn hp => (hstep k (hmcount.trans hk) hkn (Or.inr hp)).2 hp

/-! ## The gauge rises -/

/-- A step, after the breaker has recovered. -/
theorem reportUp_step (hG : F + 2 * latency + cooldown + pause ≤ G) {n : ℕ}
    (hn : X.count (F + 2 * latency + cooldown + pause) ≤ n) (hnG : n < X.count G) :
    (∀ w, D.replica w = r → ((X.state n).thread w).guard.report ≠ some false →
        ((X.state (n + 1)).thread w).guard.report ≠ some false) ∧
      ((∀ w, D.replica w = r → ((X.state n).thread w).guard.report ≠ some false) →
        ((X.state (n + 1)).shared.world.proc r).redisUp = 1 ∨
          ((X.state (n + 1)).shared.world.proc r).redisUp =
              ((X.state n).shared.world.proc r).redisUp ∧
            ∀ w, D.replica w = r → ((X.state n).thread w).guard.hasReported = false →
              ((X.state (n + 1)).thread w).guard.hasReported = false) := by
  have hlatency := h.latency_nonneg
  have hcooldown := h.cooldown_nonneg
  have hpause := h.pause_nonneg
  have hF : F < X.time n := by linarith [X.count_le_iff.1 hn]
  have hp := h.recovered hG hn hnG.le
  obtain ⟨hproc, hothers⟩ | ⟨v, kept, now, hv, hothers, heff⟩ := h.guard_step hF (X.lt_count_iff.1 hnG)
  · refine ⟨fun w hw => hothers w hw ▸ id, fun _ => Or.inr ⟨congrArg Proc.redisUp hproc, fun w hw => ?_⟩⟩
    exact (congrArg Guard.hasReported (hothers w hw)).trans
  · refine ⟨fun w hw hreport => ?_, fun hnone => ?_⟩
    · rcases eq_or_ne w v with rfl | hwv
      · exact (heff.reportUp hp hreport).2.1
      · exact hothers w hwv ▸ hreport
    · refine (heff.reportUp hp (hnone v hv)).2.2.imp_right fun ⟨hsame, hreported⟩ =>
        ⟨hsame, fun w hw hbegun => ?_⟩
      rcases eq_or_ne w v with rfl | hwv
      · exact hreported hbegun
      · exact (congrArg Guard.hasReported (hothers w hwv)).trans hbegun

/-- When the calls that were refused are over, no call is about to report a failure. -/
theorem report_ne_false (hG : F + 3 * latency + cooldown + pause ≤ G) {n : ℕ}
    (hn : X.count (F + 3 * latency + cooldown + pause) ≤ n) (hnG : n ≤ X.count G) {w : ω}
    (hw : D.replica w = r) : ((X.state n).thread w).guard.report ≠ some false := by
  have hlatency := h.latency_nonneg
  have hcooldown := h.cooldown_nonneg
  have hpause := h.pause_nonneg
  obtain ⟨u, hFu, hu, hrank⟩ := h.ends w hw (F + 2 * latency + cooldown + pause) (by linarith)
    (by linarith)
  refine X.invariant_between (I := fun s => (s.thread w).guard.report ≠ some false) (m := X.count u) ?_
    ((X.count_mono (by linarith)).trans hn) fun k hk hkn hreport => ?_
  · rw [show ((X.state (X.count u)).thread w).guard.report = none from Guard.report_of_rank hrank]
    rintro ⟨⟩
  · exact (h.reportUp_step (by linarith) ((X.count_mono hFu).trans hk) (hkn.trans_le hnG)).1 w hw hreport

/-- After the next report, the gauge is at 1, for good. -/
theorem redisUp (hG : F + 4 * latency + cooldown + 2 * pause ≤ G) {n : ℕ}
    (hn : X.count (F + 4 * latency + cooldown + 2 * pause) ≤ n) (hnG : n ≤ X.count G) :
    ((X.state n).shared.world.proc r).redisUp = 1 := by
  have hlatency := h.latency_nonneg
  have hcooldown := h.cooldown_nonneg
  have hpause := h.pause_nonneg
  obtain ⟨m, hFm, hm, hr, hallow⟩ := h.comes (F + 3 * latency + cooldown + pause) (by linarith)
    (by linarith)
  obtain ⟨u, hmu, hu, hrank⟩ := h.ends _ hr (X.time m) (by linarith) (by linarith)
  have hmcount : m + 1 ≤ X.count u := X.lt_count_iff.2 hmu
  have hucount : X.count u ≤ n := (X.count_mono (by linarith)).trans hn
  let I : Server ω ρ → Prop := fun s => (s.thread (X.event m).1).guard.hasReported = false ∨
    (s.shared.world.proc r).redisUp = 1
  have hstep : ∀ k, m ≤ k → k < n → I (X.state k) → I (X.state (k + 1)) ∧
      (((X.state k).shared.world.proc r).redisUp = 1 →
        ((X.state (k + 1)).shared.world.proc r).redisUp = 1) := fun k hk hkn hI => by
    have hFk : F + 3 * latency + cooldown + pause < X.time k := hFm.trans_le (X.monotone_time hk)
    have hstep := (h.reportUp_step (by linarith) (X.count_le_iff.2 (by linarith))
      (hkn.trans_le hnG)).2 fun w hw =>
        h.report_ne_false (by linarith) (X.count_le_iff.2 hFk) (hkn.le.trans hnG) hw
    rcases hstep with hup | ⟨hsame, hreported⟩
    · exact ⟨Or.inr hup, fun _ => hup⟩
    · exact ⟨hI.imp (hreported _ hr) hsame.trans, hsame.trans⟩
  have hover : I (X.state (X.count u)) :=
    X.invariant_between (I := I) (Or.inl (by rw [hallow]; rfl)) (Nat.le_of_succ_le hmcount)
      fun k hk hku hI => (hstep k hk (hku.trans_le hucount) hI).1
  have hup : ((X.state (X.count u)).shared.world.proc r).redisUp = 1 :=
    hover.resolve_left fun hbegun => by
      have hdone := Guard.hasReported_of_rank hrank
      exact absurd (hbegun.symm.trans hdone) Bool.false_ne_true
  exact X.invariant_between (I := fun s => (s.shared.world.proc r).redisUp = 1) hup hucount
    fun k hk hkn hup => (hstep k ((Nat.le_of_succ_le hmcount).trans hk) hkn (Or.inr hup)).2 hup

end Answering

/-- **The service recovers from an outage of Redis.** In every execution of the service: from the
time on at which Redis answers a replica, its breaker closes for good within two latencies, the
cooldown and a pause, and two latencies and a pause later `redis_up` is at 1 for good, whatever
state the outage has left the replica in. And if that is so of all replicas, `EdgeCacheRedisDown` is
not firing from then on. -/
theorem redis_recovers [Fintype ρ] (X : Timed (Pool.step (serverStep D)) ℚ)
    (F G cooldown latency pause : ℚ) :
    (∀ r, Answering X r F G cooldown latency pause →
      (∀ t, F + 2 * latency + cooldown + pause ≤ t → t ≤ G →
        Recovered ((X.stateAt t).shared.world.proc r).breaker) ∧
      ∀ t, F + 4 * latency + cooldown + 2 * pause ≤ t → t ≤ G → redisUpScraped X r t = 1) ∧
    ((∀ r, Answering X r F G cooldown latency pause) → ∀ phase n,
      F + 4 * latency + cooldown + 2 * pause ≤ evaluation phase n → evaluation phase n ≤ G →
        ¬ FiringMinute (edgeCacheRedisDown (redisUpScraped X)) phase n) := by
  have key : ∀ r, Answering X r F G cooldown latency pause → ∀ t,
      F + 4 * latency + cooldown + 2 * pause ≤ t → t ≤ G → redisUpScraped X r t = 1 :=
    fun r h t ht htG => by
      rw [redisUpScraped, Timed.stateAt, h.redisUp (ht.trans htG) (X.count_mono ht) (X.count_mono htG)]
      rfl
  refine ⟨fun r h => ⟨fun t ht htG => ?_, key r h⟩, fun h phase n hn hnG hfiring => ?_⟩
  · exact h.recovered (ht.trans htG) (X.count_mono ht) (X.count_mono htG)
  · obtain ⟨r, hr⟩ := isSome_redisDown.1 ((firingMinute_iff.1 hfiring).2 n (Nat.sub_le n 2) le_rfl)
    rw [key r (h r) _ hn hnG] at hr
    exact one_ne_zero hr

/-! ## A recovery -/

/-- A step of the thread of `solo` at time `t`. -/
def soloGo (t : ℚ) (reply : Reply) : Unit × ServerAct := ((), .go { calm with now := t + 3, reply })

/-- It is asked for a segment, and comes to the breaker. -/
def comeAt (t : ℚ) (reply : Reply) : List (Unit × ServerAct) :=
  ((), .take (.segment "ab")) :: List.replicate 5 (soloGo t reply)

/-- It answers. -/
def answerAt (t : ℚ) (reply : Reply) (steps : ℕ) : List (Unit × ServerAct) :=
  List.replicate (steps + 1) (soloGo t reply)

/-- The state after a lookup that Redis answers, if it comes to the breaker and ends in the given
number of steps. -/
def lookupAt (t : ℚ) (steps : ℕ) (s : Server Unit Unit) : Option (Server Unit Unit) :=
  (run (Pool.step (serverStep solo)) s (comeAt t (.answers true))).bind fun s₁ =>
    if (s₁.thread ()).guard = .allow then
      run (Pool.step (serverStep solo)) s₁ (answerAt t (.answers true) steps)
    else none

theorem reachable_lookupAt {t : ℚ} {steps : ℕ} {s s' : Server Unit Unit}
    (h : lookupAt t steps s = some s') : Reachable (Pool.step (serverStep solo)) s s' := by
  obtain ⟨s₁, hcome, hanswer⟩ := Option.bind_eq_some_iff.1 h
  split_ifs at hanswer
  exact ⟨_, (run_append_eq_some _).2 ⟨s₁, hcome, hanswer⟩⟩

/-- The states of the recovery: Redis fails a lookup, and answers three. After the first one that it
answers, the replica is healthy, and Redis holds the segment. -/
theorem exists_recovering : ∃ s₁ s₂ s₃ s₄,
    run (Pool.step (serverStep solo)) (boot solo fun _ => 0)
        (comeAt (-3) (.raises false) ++ answerAt (-3) (.raises false) 16) = some s₁ ∧
      lookupAt (-2) 17 s₁ = some s₂ ∧ lookupAt (-1) 9 s₂ = some s₃ ∧ lookupAt 0 9 s₃ = some s₄ ∧
      ((∀ s ∈ [s₁, s₂, s₃], (s.thread ()).guard.rank = 0) ∧ (s₁.shared.world.proc ()).redisUp = 0 ∧
        Recovered (s₂.shared.world.proc ()).breaker ∧ (s₂.shared.world.proc ()).redisUp = 1 ∧
        (s₂.shared.world.redis (key "ab")).isSome = true) ∧
      (s₂.thread ()).lastSegment = some "ab" ∧ (s₄.thread ()).lastSegment = some "ab" := by
  have h : ((run (Pool.step (serverStep solo)) (boot solo fun _ => 0)
      (comeAt (-3) (.raises false) ++ answerAt (-3) (.raises false) 16)).bind fun s₁ =>
        (lookupAt (-2) 17 s₁).bind fun s₂ => (lookupAt (-1) 9 s₂).bind fun s₃ =>
          (lookupAt 0 9 s₃).bind fun s₄ =>
            some (decide ((∀ s ∈ [s₁, s₂, s₃], (s.thread ()).guard.rank = 0) ∧
                (s₁.shared.world.proc ()).redisUp = 0 ∧ Recovered (s₂.shared.world.proc ()).breaker ∧
                (s₂.shared.world.proc ()).redisUp = 1 ∧ (s₂.shared.world.redis (key "ab")).isSome = true),
              (s₂.thread ()).lastSegment, (s₄.thread ()).lastSegment)) =
      some (true, some "ab", some "ab") := by decide +kernel
  simp only [Option.bind_eq_some_iff, Option.some.injEq, Prod.mk.injEq, decide_eq_true_iff] at h
  obtain ⟨s₁, h₁, s₂, h₂, s₃, h₃, s₄, h₄, hobserved⟩ := h
  exact ⟨s₁, s₂, s₃, s₄, h₁, h₂, h₃, h₄, hobserved⟩

/-- What `solo` does at time `t`: it is asked for one segment, and for its chaos state; its clock
runs with the time, and Redis answers after time -3. -/
def OnTime (t : ℚ) : ServerAct → Prop
  | .take request => request = .segment "ab" ∨ request = .admin .read
  | .go env => env.now = t + 3 ∧ env.reply = if -3 < t then .answers true else .raises false

/-- The events of a lookup. -/
theorem onTime_lookup {t : ℚ} {reply : Reply} {steps : ℕ}
    (h : reply = if -3 < t then .answers true else .raises false) {e : Unit × ServerAct}
    (he : e ∈ comeAt t reply ++ answerAt t reply steps) : OnTime t e.2 := by
  simp only [comeAt, answerAt, List.cons_append, List.mem_cons, List.mem_append, List.mem_replicate] at he
  rcases he with rfl | ⟨-, rfl⟩ | ⟨-, rfl⟩
  · exact Or.inl rfl
  · exact ⟨rfl, h⟩
  · exact ⟨rfl, h⟩

/-- Everything is on time, and the calls of a lookup take none. -/
structure Prompt (X : Timed (Pool.step (serverStep solo)) ℚ) : Prop where
  events : ∀ n, OnTime (X.time n) (X.event n).2
  ends : ∀ t, ((X.stateAt t).thread ()).guard.rank = 0

theorem Prompt.go {X : Timed (Pool.step (serverStep solo)) ℚ} (h : Prompt X) {n : ℕ} {env : Env}
    (henv : (X.event n).2 = .go env) : env.now = X.time n + 3 ∧
      env.reply = if -3 < X.time n then .answers true else .raises false := by
  have hn := h.events n
  rwa [henv] at hn

/-- A call comes to the breaker at time `t`. -/
def ComesAt (X : Timed (Pool.step (serverStep solo)) ℚ) (t : ℚ) : Prop :=
  ∃ n, X.time n = t ∧ ((X.state n).thread (X.event n).1).guard = .allow

section Burst

variable {X Y : Timed (Pool.step (serverStep solo)) ℚ} {s : Server Unit Unit}
  {es : List (Unit × ServerAct)} {t : ℚ} (h : Y.Burst s es t X)

include h

theorem Prompt.burst (hX : Prompt X) (hes : ∀ e ∈ es, OnTime t e.2)
    (hrank : (s.thread ()).guard.rank = 0) : Prompt Y where
  events := fun n => by
    rcases h.events n with ⟨he, ht⟩ | ⟨m, he, ht⟩
    · exact ht ▸ hes _ he
    · exact ht ▸ he ▸ hX.events m
  ends := fun u => by
    rcases lt_or_ge u t with hu | hu
    · rw [Y.stateAt_of_lt (hu.trans_le h.le_time), h.state_zero]
      exact hrank
    · rw [h.stateAt u hu]
      exact hX.ends u

theorem ComesAt.burst {u : ℚ} (hX : ComesAt X u) : ComesAt Y u := by
  obtain ⟨m, htime, hallow⟩ := hX
  obtain ⟨n, hstate, hevent, htime'⟩ := h.later m
  exact ⟨n, htime'.trans htime, by rwa [hstate, hevent]⟩

end Burst

/-- An execution with another lookup at first. -/
theorem exists_lookup {X : Timed (Pool.step (serverStep solo)) ℚ} {t : ℚ} {steps : ℕ}
    {s : Server Unit Unit} (hX : Prompt X) (hs : lookupAt t steps s = some (X.state 0))
    (h3 : -3 < t) (ht : t ≤ X.time 0) (hrank : (s.thread ()).guard.rank = 0) :
    ∃ Y : Timed (Pool.step (serverStep solo)) ℚ, Y.state 0 = s ∧ t ≤ Y.time 0 ∧ Prompt Y ∧
      ComesAt Y t ∧ ∀ u, ComesAt X u → ComesAt Y u := by
  obtain ⟨s₁, hcome, hanswer⟩ := Option.bind_eq_some_iff.1 hs
  split_ifs at hanswer with hallow
  obtain ⟨Y, hY⟩ := X.exists_burst ((run_append_eq_some _).2 ⟨s₁, hcome, hanswer⟩) ht
  refine ⟨Y, hY.state_zero, hY.le_time, ?_, ?_, fun u hu => hu.burst hY⟩
  · exact hX.burst hY (fun e he => onTime_lookup (if_pos h3).symm he) hrank
  · obtain ⟨n, hstate, hevent, htime⟩ := hY.visits _ _ _ s₁ rfl hcome
    exact ⟨n, htime, by rw [hstate, hevent]; exact hallow⟩

/-- A step of the only thread. -/
theorem step_solo {M M' : Shared Unit} {h h' : Handling} {a : ServerAct}
    (hstep : serverStep solo () M h a = some (M', h')) :
    Pool.step (serverStep solo) ⟨M, fun _ => h⟩ ((), a) = some ⟨M', fun _ => h'⟩ :=
  Pool.step_eq_some.2 ⟨M', h', hstep, congrArg (Pool.mk M') (funext fun _ => by simp)⟩

/-- At last, it is asked for its chaos state again and again, which has no effect. -/
theorem exists_asking {s : Server Unit Unit} {last : Option Answer} (hs : s.thread () = .idle last) :
    ∃ X : Timed (Pool.step (serverStep solo)) ℚ, X.state 0 = s ∧ X.time 0 = 0 ∧ Prompt X := by
  let state : ℕ → Server Unit Unit := fun n => ⟨s.shared, fun _ =>
    if n % 2 = 0 then .idle (if n = 0 then last else some (.admin (.ok .notFound))) else .admin .read⟩
  let event : ℕ → Unit × ServerAct := fun n =>
    if n % 2 = 0 then ((), .take (.admin .read)) else soloGo (n / 2) (.answers true)
  have hoff : chaosEnabled (solo.chaosVar (solo.replica ())) = false := by decide +kernel
  have hstep : ∀ n, Pool.step (serverStep solo) (state n) (event n) = some (state (n + 1)) := fun n => by
    rcases Nat.mod_two_eq_zero_or_one n with hn | hn
    · have hn' : (n + 1) % 2 ≠ 0 := by omega
      simp only [state, event, if_pos hn, if_neg hn']
      exact step_solo rfl
    · have hne : n % 2 ≠ 0 := by omega
      have hn' : (n + 1) % 2 = 0 := by omega
      simp only [state, event, if_neg hne, if_pos hn', if_neg n.succ_ne_zero, soloGo]
      refine step_solo ?_
      simp only [serverStep, goStep, hoff, Bool.false_eq_true, if_false]
  refine ⟨.periodic state event (show (0 : ℚ) < 2 from two_pos) hstep, ?_, ?_, fun n => ?_, fun t => ?_⟩
  · exact congrArg (Pool.mk s.shared) (funext fun _ => hs.symm)
  · exact (congrArg (· / (2 : ℚ)) Nat.cast_zero).trans (zero_div _)
  · have hevent : OnTime (n / 2) (event n).2 := by
      simp only [event]
      split_ifs
      · exact Or.inr rfl
      · have hn : (0 : ℚ) ≤ n / 2 := by positivity
        exact ⟨rfl, (if_pos (by linarith)).symm⟩
    exact hevent
  · have hrank : ∀ n, ((state n).thread ()).guard.rank = 0 := fun n => by
      simp only [state]
      split <;> rfl
    exact hrank _

/-- The recovery: a lookup fails at time -3, and one is answered at each of the next three
seconds. -/
theorem exists_recovery : ∃ X : Timed (Pool.step (serverStep solo)) ℚ,
    Answering X () (-3) 0 1 0 1 ∧ redisUpScraped X () (-3) = 0 ∧ Prompt X ∧ -3 ≤ X.time 0 := by
  obtain ⟨s₁, s₂, s₃, s₄, h₁, h₂, h₃, h₄, ⟨hranks, hup, -⟩, -, hlast⟩ := exists_recovering
  have hrank₁ := hranks s₁ (by simp)
  have hrank₂ := hranks s₂ (by simp)
  have hrank₃ := hranks s₃ (by simp)
  obtain ⟨response, hidle⟩ := Handling.lastSegment_eq_some.1 hlast
  obtain ⟨X₄, rfl, htime₄, hX₄⟩ := exists_asking hidle
  obtain ⟨X₃, rfl, htime₃, hX₃, hcomes₃, -⟩ := exists_lookup hX₄ h₄ (by norm_num) htime₄.ge hrank₃
  obtain ⟨X₂, rfl, htime₂, hX₂, hcomes₂, hlater₂⟩ := exists_lookup hX₃ h₃ (by norm_num) (by linarith)
    hrank₂
  obtain ⟨X₁, rfl, htime₁, hX₁, hcomes₁, hlater₁⟩ := exists_lookup hX₂ h₂ (by norm_num) (by linarith)
    hrank₁
  obtain ⟨X, hX⟩ := X₁.exists_burst h₁ (t := -3) (by linarith)
  have hprompt : Prompt X := hX₁.burst hX (fun e he => onTime_lookup (if_neg (lt_irrefl _)).symm he) rfl
  refine ⟨X, ⟨⟨_, hX.state_zero⟩, rfl, rfl, ⟨3, fun n env _ henv => (hprompt.go henv).1⟩,
    fun n hn _ _ env henv => ⟨true, (hprompt.go henv).2.trans (if_pos hn)⟩, le_rfl,
    fun _ _ t _ _ => ⟨t, le_rfl, (add_zero t).ge, hprompt.ends t⟩, zero_le_one, fun t ht ht' => ?_⟩, ?_,
    hprompt, hX.le_time⟩
  · have hcomes : ∃ u, t < u ∧ u ≤ t + 1 ∧ ComesAt X u := by
      rcases lt_or_ge t (-2) with h2 | h2
      · exact ⟨-2, h2, by linarith, hcomes₁.burst hX⟩
      · rcases lt_or_ge t (-1) with h1 | h1
        · exact ⟨-1, h1, by linarith, (hlater₁ _ hcomes₂).burst hX⟩
        · exact ⟨0, by linarith, by linarith, (hlater₁ _ (hlater₂ _ hcomes₃)).burst hX⟩
    obtain ⟨u, htu, hut, n, rfl, hallow⟩ := hcomes
    exact ⟨n, htu, hut, rfl, hallow⟩
  · have hopen : X.stateAt (-3) = X₁.state 0 :=
      (hX.stateAt (-3) le_rfl).trans (X₁.stateAt_of_lt (by linarith))
    rw [redisUpScraped, hopen, hup, Nat.cast_zero]

/-- The gauge has fallen, and it rises again. -/
theorem redis_recovers_solo : ∃ X : Timed (Pool.step (serverStep solo)) ℚ,
    redisUpScraped X () (-3) = 0 ∧ Recovered ((X.stateAt 0).shared.world.proc ()).breaker ∧
      redisUpScraped X () 0 = 1 ∧
      ¬ FiringMinute (edgeCacheRedisDown (redisUpScraped X)) (-60) 2 := by
  obtain ⟨X, hX, hdown, -⟩ := exists_recovery
  obtain ⟨hreplica, halert⟩ := redis_recovers X (-3) 0 1 0 1
  obtain ⟨hrecovered, hup⟩ := hreplica () hX
  refine ⟨X, hdown, hrecovered 0 (by norm_num) le_rfl, hup 0 (by norm_num) le_rfl, ?_⟩
  exact halert (fun _ => hX) (-60) 2 (by norm_num [evaluation]) (by norm_num [evaluation])

end EdgeCache.Service
