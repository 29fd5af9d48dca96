import EdgeCache.Breaker.Calls

/-!
# The open window

When a failure opens the breaker at time `t`, it is meant to stay OPEN and to refuse every call
before `t + cooldown`, and to admit the first call from then on (`OpenWindow`). A run keeps its
windows (`WindowsKept`) if no outcome is recorded while the breaker is OPEN, except for failures at
the very instant it opened (`windowsKept_of_quiet`).

Calls that were admitted before the breaker opened may return while it is OPEN. Then a success
closes it at once, and a failure restarts its cooldown (`late_outcomes_break_window`).
-/

namespace EdgeCache.Breaker

open CircuitBreaker Transition

variable {ω : Type*} [DecidableEq ω] (cfg : Settings)

/-- The breaker, opened at `t`, keeps its window in the run of the events from `s`: a step before
`t + cooldown` leaves it OPEN and is refused if it asks for a call, and the first to ask at or after
`t + cooldown` is admitted. -/
def OpenWindow (t : ℚ) : Calls ω → List (ω × CallAct) → Prop
  | _, [] => True
  | s, e :: es => ∀ s', Pool.step (callStep cfg) s e = some s' →
    if cfg.Elapsed t e.2.now then
      (e.2.op = .allow → (s.shared.breaker.allow cfg e.2.now).1 = true) ∧
        (e.2.op ≠ .allow → OpenWindow t s' es)
    else
      s'.shared.breaker.state = .opened ∧
        (e.2.op = .allow → (s.shared.breaker.allow cfg e.2.now).1 = false) ∧ OpenWindow t s' es

/-- The step is a failure that takes the breaker from CLOSED or HALF_OPEN to OPEN. -/
def Opens (s : Calls ω) (e : ω × CallAct) (s' : Calls ω) : Prop :=
  e.2.op = .failure ∧ s.shared.breaker.state ≠ .opened ∧ s'.shared.breaker.state = .opened

/-- Every window that opens in the run of the events from `s` is kept. -/
def WindowsKept : Calls ω → List (ω × CallAct) → Prop
  | _, [] => True
  | s, e :: es => ∀ s', Pool.step (callStep cfg) s e = some s' →
    (Opens s e s' → OpenWindow cfg e.2.now s' es) ∧ WindowsKept s' es

/-- While the breaker is OPEN no outcome is recorded, except for failures at the instant at which
it opened. -/
def QuietWhileOpen (s : Calls ω) (e : ω × CallAct) (_ : Calls ω) : Prop :=
  s.shared.breaker.state = .opened →
    e.2.op ≠ .success ∧ (e.2.op = .failure → e.2.now = s.shared.breaker.openedAt)

instance (s : Calls ω) (e : ω × CallAct) (s' : Calls ω) : Decidable (Opens s e s') :=
  inferInstanceAs (Decidable (_ ∧ _))

instance (s : Calls ω) (e : ω × CallAct) (s' : Calls ω) : Decidable (QuietWhileOpen s e s') :=
  inferInstanceAs (Decidable (_ → _))

instance OpenWindow.decidable (t : ℚ) :
    ∀ (s : Calls ω) (es : List (ω × CallAct)), Decidable (OpenWindow cfg t s es)
  | _, [] => isTrue trivial
  | s, e :: es =>
    have : ∀ s', Decidable (OpenWindow cfg t s' es) := fun s' => OpenWindow.decidable t s' es
    inferInstanceAs (Decidable (∀ s' ∈ Pool.step (callStep cfg) s e, ite _ _ _))

instance WindowsKept.decidable :
    ∀ (s : Calls ω) (es : List (ω × CallAct)), Decidable (WindowsKept cfg s es)
  | _, [] => isTrue trivial
  | s, e :: es =>
    have : ∀ s', Decidable (WindowsKept cfg s' es) := fun s' => WindowsKept.decidable s' es
    inferInstanceAs (Decidable (∀ s' ∈ Pool.step (callStep cfg) s e, _ ∧ _))

variable {cfg}

/-- An OPEN breaker keeps its window as long as the run is quiet. -/
theorem openWindow_of_quiet {t : ℚ} {s : Calls ω} {es : List (ω × CallAct)}
    (hw : WellFormed cfg s.shared.breaker) (hs : s.shared.breaker.state = .opened)
    (ht : s.shared.breaker.openedAt = t)
    (hq : Along (Pool.step (callStep cfg)) QuietWhileOpen s es) : OpenWindow cfg t s es := by
  induction es generalizing s with
  | nil => trivial
  | cons e es ih =>
    intro s' he
    obtain ⟨hnot, hinstant⟩ := (hq s' he).1 hs
    have hw' := wellFormed_step hw he
    have hq' := hq.tail he
    obtain ⟨w, a⟩ := e
    obtain ⟨-, old, g, u, -, heff, rfl⟩ := step_effect hw he
    cases heff with
    | grant _ hb => cases hs.symm.trans hb
    | promote hop _ helapsed =>
      rw [if_pos (ht ▸ helapsed)]
      exact ⟨fun _ => by rw [allow_of_elapsed cfg a.now _ hs helapsed], fun hne => absurd hop hne⟩
    | refuse _ hb =>
      have hnot : ¬ cfg.Elapsed t a.now := by
        rcases hb with hb | ⟨-, hb⟩
        · cases hs.symm.trans hb
        · exact ht ▸ hb
      rw [if_neg hnot]
      exact ⟨hs, fun _ => by rw [allow_of_not_elapsed cfg a.now _ hs (ht ▸ hnot)],
        ih hw' hs ht hq'⟩
    | success _ hop => exact absurd hop hnot
    | trip _ hop _ hst ho =>
      have hnext := ih hw' hst (ho.trans ((hinstant hop).trans ht)) hq'
      split_ifs
      · exact ⟨fun hop' => (CallOp.noConfusion (hop.symm.trans hop')), fun _ => hnext⟩
      · exact ⟨hst, fun hop' => (CallOp.noConfusion (hop.symm.trans hop')), hnext⟩
    | count _ _ hb => cases hs.symm.trans hb

/-- A failure which opens the breaker leaves it opened at that time. -/
theorem openedAt_of_opens {s s' : Calls ω} {e : ω × CallAct}
    (hw : WellFormed cfg s.shared.breaker) (h : Pool.step (callStep cfg) s e = some s')
    (ho : Opens s e s') : s'.shared.breaker.openedAt = e.2.now := by
  obtain ⟨hop, hs, hs'⟩ := ho
  obtain ⟨w, a⟩ := e
  obtain ⟨-, old, g, u, -, heff, rfl⟩ := step_effect hw h
  cases heff with
  | grant hop' | promote hop' | refuse hop' => cases hop.symm.trans hop'
  | success _ hop' => cases hop.symm.trans hop'
  | trip _ _ _ _ ho => exact ho
  | count _ _ _ _ hst => cases hst.symm.trans hs'

theorem windowsKept_of_wellFormed {s : Calls ω} {es : List (ω × CallAct)}
    (hw : WellFormed cfg s.shared.breaker)
    (hq : Along (Pool.step (callStep cfg)) QuietWhileOpen s es) : WindowsKept cfg s es := by
  induction es generalizing s with
  | nil => trivial
  | cons e es ih =>
    intro s' he
    have hw' := wellFormed_step hw he
    have hq' := hq.tail he
    exact ⟨fun ho => openWindow_of_quiet hw' ho.2.2 (openedAt_of_opens hw he ho) hq', ih hw' hq'⟩

/-- **The open window lasts exactly the cooldown** in the runs where no outcome is recorded while
the breaker is OPEN, except for failures at the instant at which it opened. -/
theorem windowsKept_of_quiet {t : ℚ} {es : List (ω × CallAct)}
    (hq : Along (Pool.step (callStep cfg)) QuietWhileOpen (start ω t) es) :
    WindowsKept cfg (start ω t) es :=
  windowsKept_of_wellFormed (WellFormed.init cfg) hq

/-- Two workers open the breaker at time 1, the second of them when it is OPEN already; calls are
refused until time 6 and admitted then. -/
theorem windowsKept_opened_at_one :
    WindowsKept (Settings.init 1 (.fin 5)) (start (Fin 2) 0)
      [(0, ⟨0, .allow⟩), (1, ⟨0, .allow⟩), (0, ⟨1, .failure⟩), (1, ⟨1, .failure⟩),
        (0, ⟨5, .allow⟩), (0, ⟨6, .allow⟩)] :=
  windowsKept_of_quiet (by decide +kernel)

/-- Four calls are admitted and three of them fail, which opens the breaker at time 1. -/
def openedAtOne : List (ℕ × CallAct) :=
  [(0, ⟨0, .allow⟩), (1, ⟨0, .allow⟩), (2, ⟨0, .allow⟩), (3, ⟨0, .allow⟩), (1, ⟨1, .failure⟩),
    (2, ⟨1, .failure⟩), (3, ⟨1, .failure⟩)]

/-- With a cooldown of 5, the late success of the fourth call closes the breaker at time 2; its late
failure at time 5 makes the breaker refuse a call at time 6. -/
theorem late_outcomes_break_window :
    ¬ WindowsKept (Settings.init 3 (.fin 5)) (start ℕ 0)
        (openedAtOne ++ [(0, ⟨2, .success⟩)]) ∧
      ¬ WindowsKept (Settings.init 3 (.fin 5)) (start ℕ 0)
        (openedAtOne ++ [(0, ⟨5, .failure⟩), (1, ⟨6, .allow⟩)]) := by
  decide +kernel

end EdgeCache.Breaker
