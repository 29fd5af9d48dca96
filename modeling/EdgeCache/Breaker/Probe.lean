import EdgeCache.Breaker.Calls

/-!
# The probe of a half-open breaker

Two facts about the probe, the call whose admission promotes the breaker to HALF_OPEN, in every
interleaving of any number of workers.

While the breaker is HALF_OPEN its probe is in flight (`probe_inFlight`), since every outcome that
is recorded takes the breaker out of HALF_OPEN. So the breaker cannot stay HALF_OPEN for ever, and
it always recovers (`never_wedges`).

When every call is shorter than the cooldown, two probes are never in flight together
(`probes_do_not_overlap`). Whatever late outcomes do to the breaker while a probe is out, it opens
again after the admission of that probe (`probeAssertion`), so the next promotion is a cooldown
away.
-/

namespace EdgeCache.Breaker

open CircuitBreaker Transition

variable {ω : Type*} [DecidableEq ω] {cfg : Settings}

/-! ## The breaker never wedges -/

/-- The probe whose admission last promoted the breaker is in flight. -/
def ProbeInFlight (s : Calls ω) : Prop :=
  ∃ c, s.shared.lastProbe = some c ∧ s.thread c.worker = some c

theorem probeInFlight_step {s s' : Calls ω} {e : ω × CallAct}
    (hs : WellFormed cfg s.shared.breaker ∧
      (s.shared.breaker.state = .halfOpen → ProbeInFlight s))
    (h : Pool.step (callStep cfg) s e = some s') :
    WellFormed cfg s'.shared.breaker ∧
      (s'.shared.breaker.state = .halfOpen → ProbeInFlight s') := by
  obtain ⟨hw, hp⟩ := hs
  refine ⟨wellFormed_step hw h, fun hhalf => ?_⟩
  obtain ⟨w, a⟩ := e
  obtain ⟨-, old, g, t, hold, heff, rfl⟩ := step_effect hw h
  cases heff with
  | grant _ hb => simp [hb] at hhalf
  | promote => exact ⟨_, rfl, by simp⟩
  | refuse =>
    -- a worker that is refused has no call in flight, so it is not the probe's
    obtain ⟨c, hc, hcw⟩ := hp hhalf
    have hne : c.worker ≠ w := fun h => by simp [h, hold] at hcw
    exact ⟨c, hc, by simpa [hne] using hcw⟩
  | success => simp at hhalf
  | trip _ _ _ hst => simp [hst] at hhalf
  | count _ _ _ _ hst => simp [hst] at hhalf

/-- **While the breaker is HALF_OPEN, the probe that promoted it is in flight.** -/
theorem probe_inFlight {t : ℚ} {s : Calls ω}
    (h : Reachable (Pool.step (callStep cfg)) (start ω t) s)
    (hs : s.shared.breaker.state = .halfOpen) : ProbeInFlight s :=
  (h.invariant (I := fun s => WellFormed cfg s.shared.breaker ∧
      (s.shared.breaker.state = .halfOpen → ProbeInFlight s))
    (fun _ _ _ hI he => probeInFlight_step hI he)
    ⟨WellFormed.init cfg, fun h => by simp [start] at h⟩).2 hs

theorem recovered_step {s s' : Calls ω} {e : ω × CallAct}
    (hs : WellFormed cfg s.shared.breaker ∧ Recovered s.shared.breaker)
    (he : e.2.op ≠ .failure) (h : Pool.step (callStep cfg) s e = some s') :
    WellFormed cfg s'.shared.breaker ∧ Recovered s'.shared.breaker := by
  obtain ⟨hw, hr⟩ := hs
  refine ⟨wellFormed_step hw h, ?_⟩
  obtain ⟨w, a⟩ := e
  obtain ⟨-, old, g, t, -, heff, rfl⟩ := step_effect hw h
  cases heff with
  | grant => exact hr
  | promote _ hb => simp [hr.1] at hb
  | refuse => exact hr
  | success => exact ⟨by simp, by simp⟩
  | trip _ hop => exact absurd hop he
  | count _ hop => exact absurd hop he

/-- After a success the breaker admits every call, as long as no failure is recorded. -/
theorem recovered_run {s s' : Calls ω} {es : List (ω × CallAct)}
    (hw : WellFormed cfg s.shared.breaker) (hr : Recovered s.shared.breaker)
    (hes : ∀ e ∈ es, e.2.op ≠ .failure) (h : run (Pool.step (callStep cfg)) s es = some s') :
    Recovered s'.shared.breaker := by
  induction es generalizing s with
  | nil =>
    obtain rfl := Option.some.inj h
    exact hr
  | cons e es ih =>
    obtain ⟨s₁, he, h⟩ := (run_cons_eq_some _).1 h
    obtain ⟨hw₁, hr₁⟩ := recovered_step ⟨hw, hr⟩ (hes e (by simp)) he
    exact ih hw₁ hr₁ (fun d hd => hes d (by simp [hd])) h

/-- What is promised of a state `s` when no call is in flight. -/
structure CanRecover (cfg : Settings) (s : Calls ω) : Prop where
  state : s.shared.breaker.state = .closed ∨ s.shared.breaker.state = .opened
  /-- From the end of the cooldown a call is admitted; -/
  admits : ∀ (w : ω) (now : ℚ), s.shared.clock ≤ now →
    cfg.Elapsed s.shared.breaker.openedAt now → ∃ s₁ c,
      (s.shared.breaker.allow cfg now).1 = true ∧
      Pool.step (callStep cfg) s (w, ⟨now, .allow⟩) = some s₁ ∧ s₁.thread w = some c ∧
      -- when it succeeds, whatever the other workers did meanwhile, the breaker has recovered,
      ∀ es s₂, run (Pool.step (callStep cfg)) s₁ es = some s₂ → s₂.thread w = some c →
        ∀ now₂ s₃, Pool.step (callStep cfg) s₂ (w, ⟨now₂, .success⟩) = some s₃ →
          Recovered s₃.shared.breaker ∧
          -- and admits every call until the next failure.
          ∀ fs s₄, (∀ e ∈ fs, e.2.op ≠ .failure) →
            run (Pool.step (callStep cfg)) s₃ fs = some s₄ →
            Recovered s₄.shared.breaker ∧ ∀ now₄, (s₄.shared.breaker.allow cfg now₄).1 = true

theorem allow_of_recovered {b : CircuitBreaker} (h : Recovered b) (now : ℚ) :
    (b.allow cfg now).1 = true := by
  rw [allow_of_closed cfg now b h.1]

/-- A step which reports a success leaves a recovered breaker. -/
theorem recovered_of_success {s s' : Calls ω} {w : ω} {now : ℚ}
    (hw : WellFormed cfg s.shared.breaker)
    (h : Pool.step (callStep cfg) s (w, ⟨now, .success⟩) = some s') :
    Recovered s'.shared.breaker := by
  obtain ⟨-, old, g, t, -, heff, rfl⟩ := step_effect hw h
  cases heff with
  | success => exact ⟨by simp, by simp⟩
  | grant hop => cases hop
  | promote hop => cases hop
  | refuse hop => cases hop
  | trip _ hop => cases hop
  | count _ hop => cases hop

theorem exists_step_of_allow {s : Calls ω} {w : ω} {now : ℚ} (hs : s.thread w = none)
    (hclock : s.shared.clock ≤ now) (ha : (s.shared.breaker.allow cfg now).1 = true) :
    ∃ s₁ c, Pool.step (callStep cfg) s (w, ⟨now, .allow⟩) = some s₁ ∧ s₁.thread w = some c := by
  obtain ⟨⟨ok, b⟩, hb⟩ : ∃ r, s.shared.breaker.allow cfg now = r := ⟨_, rfl⟩
  obtain rfl : ok = true := by rw [hb] at ha; exact ha
  have hstep : callStep cfg w s.shared (s.thread w) ⟨now, .allow⟩ =
      some (s.shared.grant (s.shared.newCall w now) b, some (s.shared.newCall w now)) := by
    simp [callStep, hs, not_lt.2 hclock, hb]
  exact ⟨_, s.shared.newCall w now, Pool.step_eq_some.2 ⟨_, _, hstep, rfl⟩, by simp⟩

/-- **The breaker never wedges.** In every reachable state, a HALF_OPEN breaker has its probe in
flight; and when no call is in flight the breaker is CLOSED or OPEN, it admits a call from the end
of the cooldown on, and recovers with its success. -/
theorem never_wedges {t : ℚ} {s : Calls ω}
    (h : Reachable (Pool.step (callStep cfg)) (start ω t) s) :
    (s.shared.breaker.state = .halfOpen → ProbeInFlight s) ∧
      ((∀ w, s.thread w = none) → CanRecover cfg s) := by
  refine ⟨probe_inFlight h, fun hidle => ?_⟩
  have hw := wellFormed_run h
  have hstate : s.shared.breaker.state = .closed ∨ s.shared.breaker.state = .opened := by
    cases hs : s.shared.breaker.state with
    | closed => exact Or.inl rfl
    | opened => exact Or.inr rfl
    | halfOpen =>
      obtain ⟨c, -, hc⟩ := probe_inFlight h hs
      simp [hidle] at hc
  refine ⟨hstate, fun w now hclock he => ?_⟩
  have ha : (s.shared.breaker.allow cfg now).1 = true := by
    rcases hstate with hs | hs
    · rw [allow_of_closed cfg now _ hs]
    · rw [allow_of_elapsed cfg now _ hs he]
  obtain ⟨s₁, c, hs₁, hc⟩ := exists_step_of_allow (hidle w) hclock ha
  refine ⟨s₁, c, ha, hs₁, hc, fun es s₂ hes _ now₂ s₃ hs₃ => ?_⟩
  have hw₂ : WellFormed cfg s₂.shared.breaker :=
    run_invariant (I := fun s => WellFormed cfg s.shared.breaker)
      (fun _ _ _ hw he => wellFormed_step hw he) (wellFormed_step hw hs₁) hes
  have hr := recovered_of_success hw₂ hs₃
  refine ⟨hr, fun fs s₄ hfs hs₄ => ?_⟩
  have hr₄ := recovered_run (wellFormed_step hw₂ hs₃) hr hfs hs₄
  exact ⟨hr₄, allow_of_recovered hr₄⟩

/-- A breaker opened by three failures, with no call in flight any more, recovers. -/
theorem never_wedges_opened : ∃ s : Calls (Fin 2),
    Reachable (Pool.step (callStep (Settings.init 3 (.fin 5)))) (start (Fin 2) 0) s ∧
      s.shared.breaker.state = .opened ∧ CanRecover (Settings.init 3 (.fin 5)) s := by
  let es : List (Fin 2 × CallAct) :=
    [(0, ⟨0, .allow⟩), (1, ⟨0, .allow⟩), (1, ⟨1, .failure⟩), (0, ⟨1, .failure⟩),
      (0, ⟨2, .allow⟩), (0, ⟨3, .failure⟩)]
  obtain ⟨s, hs, hobs⟩ := Option.map_eq_some_iff.1 (show
    (run (Pool.step (callStep (Settings.init 3 (.fin 5)))) (start (Fin 2) 0) es).map
      (fun s => (s.shared.breaker.state, s.thread 0, s.thread 1)) = some (.opened, none, none) by
    decide +kernel)
  simp only [Prod.mk.injEq] at hobs
  obtain ⟨hstate, h0, h1⟩ := hobs
  exact ⟨s, ⟨es, hs⟩, hstate, (never_wedges ⟨es, hs⟩).2 (Fin.forall_fin_two.2 ⟨h0, h1⟩)⟩

/-! ## Probes of calls shorter than the cooldown -/

/-- When the clock reads `a.now`, the call in flight was admitted less than a cooldown ago. -/
def Young (cfg : Settings) (_ : Gate ω) (t : Option (Call ω)) (a : CallAct) : Prop :=
  ∀ c ∈ t, ¬ cfg.Elapsed c.admittedAt a.now

instance (g : Gate ω) (t : Option (Call ω)) (a : CallAct) : Decidable (Young cfg g t a) :=
  inferInstanceAs (Decidable (∀ c ∈ t, _))

/-- A probe in flight is the last one, and the breaker, when it is OPEN, opened after the admission
of the probe. -/
def probeAssertion (w : ω) (g : Gate ω) (t : Option (Call ω)) : Prop :=
  ∀ c ∈ t, c.worker = w ∧ (c.probe = true → g.lastProbe = some c ∧ c.admittedAt ≤ g.clock ∧
    (g.breaker.state = .opened → c.admittedAt ≤ g.breaker.openedAt))

omit [DecidableEq ω] in
theorem probeAssertion_stable : Pool.Stable (callStep cfg) (Young (ω := ω) cfg)
    (fun g => WellFormed cfg g.breaker) probeAssertion where
  own := by
    intro w g t a g' t' _ hw _ h
    obtain ⟨hclock, heff⟩ := callStep_effect hw h
    refine ⟨heff.wellFormed hw, fun c hc => ?_⟩
    cases heff with
    | grant =>
      obtain rfl := Option.some.inj hc
      exact ⟨rfl, fun hp => by cases hp⟩
    | promote =>
      obtain rfl := Option.some.inj hc
      exact ⟨rfl, fun _ => ⟨rfl, le_rfl, fun hs => by cases hs⟩⟩
    | refuse | success | trip | count => cases hc
  other := by
    intro w v g t u a g' t' _ _ hyoung hw _ hu h c hc
    obtain ⟨hclock, heff⟩ := callStep_effect hw h
    obtain ⟨hworker, hp⟩ := hu c hc
    refine ⟨hworker, fun hprobe => ?_⟩
    obtain ⟨hlast, hc', hopen⟩ := hp hprobe
    cases heff with
    | grant => exact ⟨hlast, hc'.trans hclock, hopen⟩
    | promote _ hb he =>
      -- the cooldown has elapsed since the breaker opened, hence since the probe was admitted
      exact absurd (he.mono_left (hopen hb)) (hyoung c hc)
    | refuse => exact ⟨hlast, hc'.trans hclock, hopen⟩
    | success => exact ⟨hlast, hc'.trans hclock, fun hs => by simp at hs⟩
    | trip _ _ _ _ ho => exact ⟨hlast, hc'.trans hclock, fun _ => (hc'.trans hclock).trans ho.ge⟩
    | count _ _ _ _ hs => exact ⟨hlast, hc'.trans hclock, fun hs' => by simp [hs] at hs'⟩

/-- **Probes do not overlap.** In the runs where every step is taken with the calls in flight all
younger than the cooldown, as they are when each outcome is recorded less than a cooldown after its
admission, at most one of the calls in flight is a probe. -/
theorem probes_do_not_overlap {t : ℚ} {s : Calls ω} {es : List (ω × CallAct)}
    (hyoung : Along (Pool.step (callStep cfg)) (Pool.Everywhere (Young cfg)) (start ω t) es)
    (h : run (Pool.step (callStep cfg)) (start ω t) es = some s) {v w : ω} {c d : Call ω}
    (hc : s.thread v = some c) (hd : s.thread w = some d) (hcp : c.probe = true)
    (hdp : d.probe = true) : v = w := by
  have hstart : Pool.Holds (fun g => WellFormed cfg g.breaker) probeAssertion (start ω t) :=
    ⟨WellFormed.init cfg, fun w c hc => by cases hc⟩
  obtain ⟨-, hL⟩ := probeAssertion_stable.run hyoung hstart h
  obtain ⟨hcv, hc'⟩ := hL v c hc
  obtain ⟨hdw, hd'⟩ := hL w d hd
  have hcd : c = d := Option.some.inj ((hc' hcp).1.symm.trans (hd' hdp).1)
  rw [← hcv, ← hdw, hcd]

/-- Each of two calls in turn is a probe; the second is the only one in flight. -/
theorem probes_do_not_overlap_twice : ∃ s : Calls (Fin 2),
    run (Pool.step (callStep (Settings.init 1 (.fin 5)))) (start (Fin 2) 0)
      [(0, ⟨0, .allow⟩), (0, ⟨1, .failure⟩), (0, ⟨6, .allow⟩), (0, ⟨8, .failure⟩),
        (1, ⟨13, .allow⟩)] = some s ∧ (s.thread 1).map Call.probe = some true ∧
      ∀ v w c d, s.thread v = some c → s.thread w = some d → c.probe = true → d.probe = true →
        v = w := by
  obtain ⟨s, hs, hobs⟩ := Option.map_eq_some_iff.1 (show
    (run (Pool.step (callStep (Settings.init 1 (.fin 5)))) (start (Fin 2) 0)
      [(0, ⟨0, .allow⟩), (0, ⟨1, .failure⟩), (0, ⟨6, .allow⟩), (0, ⟨8, .failure⟩),
        (1, ⟨13, .allow⟩)]).map (fun s => (s.thread 1).map Call.probe) = some (some true) by
    decide +kernel)
  exact ⟨s, hs, hobs, fun v w c d => probes_do_not_overlap (by decide +kernel) hs⟩

/-- The outcome that the step records, if it records one, comes less than a cooldown after the
admission of the call. -/
def InTime (cfg : Settings) (s : Calls ω) (e : ω × CallAct) (_ : Calls ω) : Prop :=
  e.2.op ≠ .allow → ∀ c ∈ s.thread e.1, ¬ cfg.Elapsed c.admittedAt e.2.now

/-- When every call of a run gets its outcome recorded in time, every step is taken with young
calls only: the clock does not go past the time of an outcome before it is recorded. -/
theorem young_of_inTime {s s' : Calls ω} {es : List (ω × CallAct)}
    (hw : WellFormed cfg s.shared.breaker) (h : run (Pool.step (callStep cfg)) s es = some s')
    (hidle : ∀ w, s'.thread w = none) (hin : Along (Pool.step (callStep cfg)) (InTime cfg) s es) :
    Along (Pool.step (callStep cfg)) (Pool.Everywhere (Young cfg)) s es ∧
      ∀ v, ∀ c ∈ s.thread v, ¬ cfg.Elapsed c.admittedAt s.shared.clock := by
  induction es generalizing s with
  | nil =>
    obtain rfl := Option.some.inj h
    exact ⟨trivial, fun v c hc => by simp [hidle v] at hc⟩
  | cons e es ih =>
    obtain ⟨s₁, he, h⟩ := (run_cons_eq_some _).1 h
    obtain ⟨hyoung, hclock₁⟩ := ih (wellFormed_step hw he) h (hin.tail he)
    obtain ⟨w, a⟩ := e
    obtain ⟨hclock, old, g, t, hold, heff, rfl⟩ := step_effect hw he
    have hnow : ∀ v, ∀ c ∈ s.thread v, ¬ cfg.Elapsed c.admittedAt a.now := fun v c hc => by
      rcases eq_or_ne v w with rfl | hv
      · refine (hin _ he).1 (fun hop => ?_) c hc
        rw [hold] at hc
        cases heff <;> simp_all
      · have := hclock₁ v c (by simpa [hv] using hc)
        rwa [heff.clock_eq] at this
    refine ⟨fun s' he' => ?_, fun v c hc he => hnow v c hc (he.mono_right hclock)⟩
    obtain rfl := Option.some.inj (he.symm.trans he')
    exact ⟨fun v => hnow v, hyoung⟩

end EdgeCache.Breaker
