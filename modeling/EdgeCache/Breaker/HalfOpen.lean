import EdgeCache.Breaker.Window

/-!
# Who decides the half-open state

HALF_OPEN is meant to last until the outcome of its probe, which closes the breaker or opens it
again (`DecidedByProbe`). But `record_success` and `record_failure` carry no identity of the call
they report, and they take the breaker out of HALF_OPEN whichever call that is: a call admitted
before the breaker opened, and returning late, decides in place of the probe
(`late_success_closes`).

The state is decided by the probe exactly in the runs where every outcome recorded in HALF_OPEN is
the probe's (`halfOpen_decided_iff`).
-/

namespace EdgeCache.Breaker

open CircuitBreaker Transition

variable {ω : Type*} [DecidableEq ω] {cfg : Settings}

/-- At a step from `s` to `s'`, the half-open state is decided by its own probe. -/
structure DecidedByProbe (s : Calls ω) (e : ω × CallAct) (s' : Calls ω) : Prop where
  /-- As long as a probe is in flight, the breaker stays HALF_OPEN with the probe pending. -/
  stays : ∀ v, ∀ c ∈ s'.thread v, c.probe = true →
    s'.shared.breaker.state = .halfOpen ∧ s'.shared.breaker.halfOpenPending = true
  /-- The success of a probe closes the breaker. -/
  success : ∀ c ∈ s.thread e.1, c.probe = true → e.2.op = .success →
    s'.shared.breaker.state = .closed
  /-- The failure of a probe opens the breaker. -/
  failure : ∀ c ∈ s.thread e.1, c.probe = true → e.2.op = .failure →
    s'.shared.breaker.state = .opened
  /-- The outcome of any other call leaves the breaker HALF_OPEN and the probe pending. -/
  others : s.shared.breaker.state = .halfOpen → ∀ c ∈ s.thread e.1, s.shared.lastProbe ≠ some c →
    s'.shared.breaker.state = .halfOpen ∧ s'.shared.breaker.halfOpenPending = true

/-- When the breaker is HALF_OPEN, a worker with a call in flight which takes a step, and so records
its outcome, is the one with the probe. -/
def OnlyProbeReports (s : Calls ω) (e : ω × CallAct) (_ : Calls ω) : Prop :=
  s.shared.breaker.state = .halfOpen → ∀ c ∈ s.thread e.1, s.shared.lastProbe = some c

/-- A probe in flight is the last one, and the breaker waits for it. -/
def awaitedAssertion (w : ω) (g : Gate ω) (t : Option (Call ω)) : Prop :=
  ∀ c ∈ t, c.worker = w ∧
    (c.probe = true → g.lastProbe = some c ∧ g.breaker.state = .halfOpen)

/-- The invariant of the runs in which only probes report in HALF_OPEN. -/
def Awaited (cfg : Settings) (s : Calls ω) : Prop :=
  WellFormed cfg s.shared.breaker ∧ ∀ w, awaitedAssertion w s.shared (s.thread w)

/-- The outcome of a call takes the breaker out of HALF_OPEN. -/
theorem not_halfOpen_of_outcome {s s' : Calls ω} {e : ω × CallAct} {c : Call ω}
    (hw : WellFormed cfg s.shared.breaker) (hc : s.thread e.1 = some c)
    (h : Pool.step (callStep cfg) s e = some s') : s'.shared.breaker.state ≠ .halfOpen := by
  obtain ⟨w, a⟩ := e
  obtain ⟨-, old, g, t, hold, heff, rfl⟩ := step_effect hw h
  cases heff with
  | grant | promote | refuse => simp [hold] at hc
  | success => simp
  | trip _ _ _ hs => simp [hs]
  | count _ _ _ _ hs => simp [hs]

/-- An outcome recorded while only the probe may report leaves no probe in flight. -/
theorem no_probe_after_outcome {s s' : Calls ω} {e : ω × CallAct} {c : Call ω}
    (hs : Awaited cfg s) (hC : OnlyProbeReports s e s') (hc : s.thread e.1 = some c)
    (h : Pool.step (callStep cfg) s e = some s') :
    ∀ v, ∀ d ∈ s'.thread v, d.worker = v ∧ d.probe ≠ true := by
  obtain ⟨w, a⟩ := e
  obtain ⟨hw, hL⟩ := hs
  obtain ⟨-, old, g, t, hold, heff, rfl⟩ := step_effect hw h
  have ht : t = none := by
    cases heff with
    | grant | promote | refuse => simp [hold] at hc
    | success | trip | count => rfl
  subst ht
  intro v d hd
  rcases eq_or_ne v w with rfl | hv
  · simp at hd
  · have hd' : d ∈ s.thread v := by simpa [hv] using hd
    obtain ⟨hdv, hdp⟩ := hL v d hd'
    refine ⟨hdv, fun hprobe => hv ?_⟩
    -- two calls that are both the last probe are one call, of one worker
    obtain ⟨hlast, hhalf⟩ := hdp hprobe
    have hcd : c = d := Option.some.inj ((hC hhalf c hc).symm.trans hlast)
    rw [← hdv, ← hcd, (hL w c hc).1]

theorem awaited_step {s s' : Calls ω} {e : ω × CallAct} (hs : Awaited cfg s)
    (hC : OnlyProbeReports s e s') (h : Pool.step (callStep cfg) s e = some s') :
    Awaited cfg s' := by
  have hw := hs.1
  refine ⟨wellFormed_step hw h, fun v d hd => ?_⟩
  cases hthread : s.thread e.1 with
  | some c =>
    obtain ⟨hdv, hdp⟩ := no_probe_after_outcome hs hC hthread h v d hd
    exact ⟨hdv, fun hp => absurd hp hdp⟩
  | none =>
    obtain ⟨w, a⟩ := e
    obtain ⟨-, old, g, t, hold, heff, rfl⟩ := step_effect hw h
    rw [hthread] at hold
    subst hold
    rcases eq_or_ne v w with rfl | hv
    · simp only [Function.update_self] at hd
      cases heff with
      | grant =>
        obtain rfl := Option.some.inj hd
        exact ⟨rfl, fun hp => by cases hp⟩
      | promote =>
        obtain rfl := Option.some.inj hd
        exact ⟨rfl, fun _ => ⟨rfl, rfl⟩⟩
      | refuse => cases hd
    · simp only [Function.update_of_ne hv] at hd
      obtain ⟨hdv, hdp⟩ := hs.2 v d hd
      refine ⟨hdv, fun hp => ?_⟩
      obtain ⟨hlast, hhalf⟩ := hdp hp
      cases heff with
      | grant _ hb => simp [hb] at hhalf
      | promote _ hb => simp [hb] at hhalf
      | refuse => exact ⟨hlast, hhalf⟩

theorem decidedByProbe_of_awaited {s s' : Calls ω} {e : ω × CallAct} (hs : Awaited cfg s)
    (hC : OnlyProbeReports s e s') (h : Pool.step (callStep cfg) s e = some s') :
    DecidedByProbe s e s' where
  stays := by
    intro v c hc hp
    obtain ⟨hw', hL'⟩ := awaited_step hs hC h
    have hhalf := ((hL' v c hc).2 hp).2
    exact ⟨hhalf, hw'.pending_iff.2 hhalf⟩
  success := by
    intro c hc _ hop
    obtain ⟨w, a⟩ := e
    obtain ⟨-, old, g, t, hold, heff, rfl⟩ := step_effect hs.1 h
    cases heff with
    | success => simp
    | grant hop' | promote hop' | refuse hop' => cases hop.symm.trans hop'
    | trip _ hop' | count _ hop' => cases hop.symm.trans hop'
  failure := by
    intro c hc hp hop
    have hhalf := ((hs.2 e.1 c hc).2 hp).2
    obtain ⟨w, a⟩ := e
    obtain ⟨-, old, g, t, hold, heff, rfl⟩ := step_effect hs.1 h
    cases heff with
    | trip _ _ _ hst => exact hst
    | count _ _ hclosed => simp [hclosed] at hhalf
    | grant hop' | promote hop' | refuse hop' => cases hop.symm.trans hop'
    | success _ hop' => cases hop.symm.trans hop'
  others := fun hhalf c hc hne => absurd (hC hhalf c hc) hne

/-- **The half-open state is decided by its own probe** exactly in the runs where every outcome that
is recorded in HALF_OPEN is the one of the probe. -/
theorem halfOpen_decided_iff (cfg : Settings) (t : ℚ) (es : List (ω × CallAct)) :
    Along (Pool.step (callStep cfg)) DecidedByProbe (start ω t) es ↔
      Along (Pool.step (callStep cfg)) OnlyProbeReports (start ω t) es := by
  constructor
  · have key : ∀ (s : Calls ω) e s', WellFormed cfg s.shared.breaker → DecidedByProbe s e s' →
        Pool.step (callStep cfg) s e = some s' →
        WellFormed cfg s'.shared.breaker ∧ OnlyProbeReports s e s' := fun s e s' hw hP he => by
      refine ⟨wellFormed_step hw he, fun hhalf c hc => ?_⟩
      by_contra hne
      exact not_halfOpen_of_outcome hw hc he (hP.others hhalf c hc hne).1
    exact fun hP => hP.intro key (WellFormed.init cfg)
  · have key : ∀ (s : Calls ω) e s', Awaited cfg s → OnlyProbeReports s e s' →
        Pool.step (callStep cfg) s e = some s' → Awaited cfg s' ∧ DecidedByProbe s e s' :=
      fun s e s' hs hC he => ⟨awaited_step hs hC he, decidedByProbe_of_awaited hs hC he⟩
    exact fun hC => hC.intro key ⟨WellFormed.init cfg, fun w c hc => by cases hc⟩

/-- After the cooldown of a breaker that opened at time 1, worker 1 is admitted as the probe. -/
def untilProbe : List (ℕ × CallAct) := openedAtOne ++ [(1, ⟨6, .allow⟩)]

/-- The late success of the fourth call, of worker 0, closes the breaker while the probe is in
flight. -/
theorem late_success_closes : ¬ Along (Pool.step (callStep (Settings.init 3 (.fin 5))))
    DecidedByProbe (start ℕ 0) (untilProbe ++ [(0, ⟨7, .success⟩)]) := by
  intro h
  obtain ⟨s, hs, hobs⟩ := Option.map_eq_some_iff.1 (show
    (run (Pool.step (callStep (Settings.init 3 (.fin 5)))) (start ℕ 0)
      (untilProbe ++ [(0, ⟨7, .success⟩)])).map
        (fun s => (s.shared.breaker.state, s.thread 1)) = some (.closed, some ⟨1, 4, 6, true⟩) by
    decide +kernel)
  simp only [Prod.mk.injEq] at hobs
  obtain ⟨_, -, -, hP⟩ := h.at_last hs
  have hhalf := (hP.stays 1 _ hobs.2 rfl).1
  rw [hobs.1] at hhalf
  cases hhalf

end EdgeCache.Breaker
