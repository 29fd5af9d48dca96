import Mathlib.Data.List.Basic
import Mathlib.Data.Option.Basic

/-!
# Runs of a transition system

A transition system is a partial step function `step : σ → ε → Option σ`: an event is either
enabled in a state, and then determines the next one, or it is not. The nondeterminism of the
modelled system (scheduling, the clock, the answers of the environment) is in the choice of the
events. A run is the execution of a list of events (`run`), and a property of a run is a property
of each of its steps (`Along`).

The rules used throughout are `Along.invariant` (an invariant, preserved by the steps which
satisfy a side condition) and `Along.intro` (a property of every step, from an invariant), and
for two systems `run_simulates` and `Reachable.simulates_back`.
-/

namespace Transition

variable {σ ε : Type*} (step : σ → ε → Option σ)

/-- The state after a list of events, when each of them is enabled in turn. -/
def run : σ → List ε → Option σ
  | s, [] => some s
  | s, e :: es => (step s e).bind fun s' => run s' es

theorem run_cons (s : σ) (e : ε) (es : List ε) :
    run step s (e :: es) = (step s e).bind fun s' => run step s' es := rfl

theorem run_cons_eq_some {s t : σ} {e : ε} {es : List ε} :
    run step s (e :: es) = some t ↔ ∃ s', step s e = some s' ∧ run step s' es = some t := by
  rw [run_cons, Option.bind_eq_some_iff]

theorem run_append (s : σ) (es fs : List ε) :
    run step s (es ++ fs) = (run step s es).bind fun s' => run step s' fs := by
  induction es generalizing s with
  | nil => rfl
  | cons e es ih =>
    rw [List.cons_append, run_cons, run_cons]
    cases step s e with
    | none => rfl
    | some s' => exact ih s'

theorem run_append_eq_some {s t : σ} {es fs : List ε} :
    run step s (es ++ fs) = some t ↔
      ∃ s', run step s es = some s' ∧ run step s' fs = some t := by
  rw [run_append, Option.bind_eq_some_iff]

/-- `t` is reached from `s` by some run. -/
def Reachable (s t : σ) : Prop := ∃ es, run step s es = some t

variable {step}

theorem Reachable.refl (s : σ) : Reachable step s s := ⟨[], rfl⟩

theorem Reachable.concat {s t t' : σ} {e : ε} (h : Reachable step s t) (he : step t e = some t') :
    Reachable step s t' := by
  obtain ⟨es, hrun⟩ := h
  exact ⟨es ++ [e], (run_append_eq_some step).2 ⟨t, hrun, (run_cons_eq_some step).2 ⟨t', he, rfl⟩⟩⟩

theorem Reachable.single {s t : σ} {e : ε} (h : step s e = some t) : Reachable step s t :=
  (Reachable.refl s).concat h

theorem Reachable.trans {s t u : σ} (h : Reachable step s t) (h' : Reachable step t u) :
    Reachable step s u := by
  obtain ⟨es, hes⟩ := h
  obtain ⟨fs, hfs⟩ := h'
  exact ⟨es ++ fs, (run_append_eq_some step).2 ⟨t, hes, hfs⟩⟩

variable (step)

/-- `t` is reached from `s` by some run whose events satisfy `P`. -/
def ReachableBy (P : ε → Prop) (s t : σ) : Prop := ∃ es, (∀ e ∈ es, P e) ∧ run step s es = some t

variable {step} {P : ε → Prop}

theorem ReachableBy.refl (s : σ) : ReachableBy step P s s := ⟨[], by simp, rfl⟩

theorem ReachableBy.single {s t : σ} {e : ε} (he : P e) (h : step s e = some t) :
    ReachableBy step P s t :=
  ⟨[e], by simpa using he, (run_cons_eq_some step).2 ⟨t, h, rfl⟩⟩

theorem ReachableBy.trans {s t u : σ} (h : ReachableBy step P s t) (h' : ReachableBy step P t u) :
    ReachableBy step P s u := by
  obtain ⟨es, hP, hes⟩ := h
  obtain ⟨fs, hP', hfs⟩ := h'
  refine ⟨es ++ fs, fun e he => ?_, (run_append_eq_some step).2 ⟨t, hes, hfs⟩⟩
  exact (List.mem_append.1 he).elim (hP e) (hP' e)

variable (step)

/-- Every step of the run of `es` from `s` satisfies `P`, as far as the run gets. -/
def Along (P : σ → ε → σ → Prop) : σ → List ε → Prop
  | _, [] => True
  | s, e :: es => ∀ s', step s e = some s' → P s e s' ∧ Along P s' es

variable {step}

theorem Along.tail {P : σ → ε → σ → Prop} {s s' : σ} {e : ε} {es : List ε}
    (h : Along step P s (e :: es)) (he : step s e = some s') : Along step P s' es :=
  (h s' he).2

/-- A decidable property of the steps can be checked along a run. -/
instance Along.decidable {P : σ → ε → σ → Prop} [∀ s e s', Decidable (P s e s')] :
    ∀ s es, Decidable (Along step P s es)
  | _, [] => isTrue trivial
  | s, e :: es =>
    match h : step s e with
    | none => isTrue fun s' he => by rw [h] at he; cases he
    | some s₁ =>
      have := Along.decidable (P := P) s₁ es
      decidable_of_iff (P s e s₁ ∧ Along step P s₁ es)
        ⟨fun hP s' he => by rw [h] at he; cases he; exact hP, fun hA => hA s₁ h⟩

theorem Along.mono {P Q : σ → ε → σ → Prop} (hPQ : ∀ s e s', P s e s' → Q s e s') {s : σ}
    {es : List ε} (h : Along step P s es) : Along step Q s es := by
  induction es generalizing s with
  | nil => trivial
  | cons e es ih => exact fun s' he => ⟨hPQ _ _ _ (h s' he).1, ih (h.tail he)⟩

/-- A property of every step of a run in two parts. -/
theorem along_append {P : σ → ε → σ → Prop} {s s₁ : σ} {pre post : List ε}
    (hpre : run step s pre = some s₁) :
    Along step P s (pre ++ post) ↔ Along step P s pre ∧ Along step P s₁ post := by
  induction pre generalizing s with
  | nil =>
    obtain rfl := Option.some.inj hpre
    exact (and_iff_right trivial).symm
  | cons e pre ih =>
    obtain ⟨s', he, hrun⟩ := (run_cons_eq_some step).1 hpre
    simp only [List.cons_append, Along, he, Option.some.injEq, forall_eq', ih hrun, and_assoc]

/-- The property at a given step of the run. -/
theorem Along.at_step {P : σ → ε → σ → Prop} {s s₁ s₂ : σ} {pre post : List ε} {e : ε}
    (h : Along step P s (pre ++ e :: post)) (hpre : run step s pre = some s₁)
    (he : step s₁ e = some s₂) : P s₁ e s₂ := by
  induction pre generalizing s with
  | nil =>
    obtain rfl := Option.some.inj hpre
    exact (h s₂ he).1
  | cons d pre ih =>
    obtain ⟨s', hd, hrun⟩ := (run_cons_eq_some step).1 hpre
    exact ih (h.tail hd) hrun

/-- The property at the last step of the run. -/
theorem Along.at_last {P : σ → ε → σ → Prop} {s t : σ} {es : List ε} {e : ε}
    (h : Along step P s (es ++ [e])) (hrun : run step s (es ++ [e]) = some t) :
    ∃ s', run step s es = some s' ∧ step s' e = some t ∧ P s' e t := by
  obtain ⟨s', hes, hlast⟩ := (run_append_eq_some step).1 hrun
  obtain ⟨t', he, ht⟩ := (run_cons_eq_some step).1 hlast
  obtain rfl := Option.some.inj ht
  exact ⟨s', hes, he, h.at_step hes he⟩

theorem along_true (s : σ) (es : List ε) : Along step (fun _ _ _ => True) s es := by
  induction es generalizing s with
  | nil => trivial
  | cons e es ih => exact fun s' _ => ⟨trivial, ih s'⟩

/-- A property of the events alone. -/
theorem along_of_forall {P : ε → Prop} {s : σ} {es : List ε} (h : ∀ e ∈ es, P e) :
    Along step (fun _ e _ => P e) s es := by
  induction es generalizing s with
  | nil => trivial
  | cons e es ih =>
    exact fun s' _ => ⟨h e List.mem_cons_self, ih fun e he => h e (List.mem_cons_of_mem _ he)⟩

/-- **The invariant rule.** A predicate preserved by every step that satisfies the side condition
`C` holds at the end of every run whose steps satisfy `C`. -/
theorem Along.invariant {C : σ → ε → σ → Prop} {I : σ → Prop}
    (hstep : ∀ s e s', I s → C s e s' → step s e = some s' → I s') {s t : σ} {es : List ε}
    (hC : Along step C s es) (hs : I s) (hrun : run step s es = some t) : I t := by
  induction es generalizing s with
  | nil =>
    obtain rfl := Option.some.inj hrun
    exact hs
  | cons e es ih =>
    obtain ⟨s', he, hrun⟩ := (run_cons_eq_some step).1 hrun
    exact ih (hC.tail he) (hstep s e s' hs (hC s' he).1 he) hrun

/-- The invariant rule with a quantity that is computed from the events of the run so far. -/
theorem Along.invariant_foldl {γ : Type*} {C : σ → ε → σ → Prop} {f : γ → ε → γ}
    {I : γ → σ → Prop}
    (hstep : ∀ g s e s', I g s → C s e s' → step s e = some s' → I (f g e) s') {g : γ} {s t : σ}
    {es : List ε} (hC : Along step C s es) (hs : I g s) (hrun : run step s es = some t) :
    I (es.foldl f g) t := by
  induction es generalizing g s with
  | nil =>
    obtain rfl := Option.some.inj hrun
    exact hs
  | cons e es ih =>
    obtain ⟨s', he, hrun⟩ := (run_cons_eq_some step).1 hrun
    exact ih (hC.tail he) (hstep g s e s' hs (hC s' he).1 he) hrun

/-- The events of the run so far are such a quantity. -/
theorem foldl_snoc (es fs : List ε) : es.foldl (fun fs e => fs ++ [e]) fs = fs ++ es := by
  induction es generalizing fs with
  | nil => simp
  | cons e es ih => simp [ih]

/-- The invariant rule without a side condition. -/
theorem run_invariant {I : σ → Prop}
    (hstep : ∀ s e s', I s → step s e = some s' → I s') {s t : σ} {es : List ε}
    (hs : I s) (hrun : run step s es = some t) : I t :=
  Along.invariant (fun s e s' hI _ he => hstep s e s' hI he) (along_true s es) hs hrun

theorem Reachable.invariant {I : σ → Prop}
    (hstep : ∀ s e s', I s → step s e = some s' → I s') {s t : σ}
    (h : Reachable step s t) (hs : I s) : I t :=
  let ⟨_, hrun⟩ := h
  run_invariant hstep hs hrun

/-- **From an invariant to a property of every step**, in the runs whose steps satisfy `C`. -/
theorem Along.intro {C P : σ → ε → σ → Prop} {I : σ → Prop}
    (hstep : ∀ s e s', I s → C s e s' → step s e = some s' → I s' ∧ P s e s') {s : σ}
    {es : List ε} (hC : Along step C s es) (hs : I s) : Along step P s es := by
  induction es generalizing s with
  | nil => trivial
  | cons e es ih =>
    intro s' he
    obtain ⟨hI, hP⟩ := hstep s e s' hs (hC s' he).1 he
    exact ⟨hP, ih (hC.tail he) hI⟩

/-! ## Simulations -/

variable {σ' ε' : Type*} {step' : σ' → ε' → Option σ'}

/-- A system whose events stand for some of another one's. -/
theorem run_map {step' : σ → ε' → Option σ} {f : ε → ε'} (hstep : ∀ s e, step s e = step' s (f e))
    (s : σ) (es : List ε) : run step s es = run step' s (es.map f) := by
  induction es generalizing s with
  | nil => rfl
  | cons e es ih =>
    rw [List.map_cons, run_cons, run_cons, hstep]
    exact congrArg _ (funext ih)

theorem along_map {step' : σ → ε' → Option σ} {f : ε → ε'} (hstep : ∀ s e, step s e = step' s (f e))
    {P : σ → ε' → σ → Prop} {s : σ} {es : List ε}
    (h : Along step (fun s e s' => P s (f e) s') s es) : Along step' P s (es.map f) := by
  induction es generalizing s with
  | nil => trivial
  | cons e es ih =>
    intro s' he
    rw [← hstep] at he
    exact ⟨(h s' he).1, ih (h.tail he)⟩

/-- **Embedding.** A run of a system is one of another system whose states contain its own, as long
as an invariant holds. -/
theorem Reachable.embed {f : σ → σ'} {I : σ → Prop} {P' : ε' → Prop} {s t : σ}
    (h : Reachable step s t)
    (hstep : ∀ s e s', I s → step s e = some s' →
      I s' ∧ ∃ e', P' e' ∧ step' (f s) e' = some (f s'))
    (hs : I s) : I t ∧ ReachableBy step' P' (f s) (f t) := by
  obtain ⟨es, hrun⟩ := h
  induction es generalizing s with
  | nil =>
    obtain rfl := Option.some.inj hrun
    exact ⟨hs, ReachableBy.refl _⟩
  | cons e es ih =>
    obtain ⟨s', he, hrun⟩ := (run_cons_eq_some step).1 hrun
    obtain ⟨hs', e', hP', he'⟩ := hstep s e s' hs he
    obtain ⟨ht, hreach⟩ := ih hs' hrun
    exact ⟨ht, (ReachableBy.single hP' he').trans hreach⟩

/-- **Forward simulation.** When every step of the first system is matched by a run of the second
one, up to `R`, every run of the first is. -/
theorem run_simulates {R : σ → σ' → Prop}
    (hstep : ∀ s e s' t, R s t → step s e = some s' →
      ∃ fs t', run step' t fs = some t' ∧ R s' t') {s s' : σ} {t : σ'} {es : List ε}
    (hR : R s t) (hrun : run step s es = some s') :
    ∃ fs t', run step' t fs = some t' ∧ R s' t' := by
  induction es generalizing s t with
  | nil =>
    obtain rfl := Option.some.inj hrun
    exact ⟨[], t, rfl, hR⟩
  | cons e es ih =>
    obtain ⟨s₁, he, hrun⟩ := (run_cons_eq_some step).1 hrun
    obtain ⟨fs₁, t₁, hf₁, hR₁⟩ := hstep s e s₁ t hR he
    obtain ⟨fs₂, t₂, hf₂, hR₂⟩ := ih hR₁ hrun
    exact ⟨fs₁ ++ fs₂, t₂, (run_append_eq_some step').2 ⟨t₁, hf₁, hf₂⟩, hR₂⟩

/-- **Backward simulation.** When whatever the second system may be at after a step is reached from
something that it may have been at before, as long as an invariant holds, every run of the first
system is matched from its end. -/
theorem Reachable.simulates_back {I : σ → Prop} {R : σ → σ' → Prop}
    (hinv : ∀ s e s', I s → step s e = some s' → I s')
    (hstep : ∀ s e s' t', I s → step s e = some s' → R s' t' → ∃ t, Reachable step' t t' ∧ R s t)
    {s s' : σ} {t' : σ'} (h : Reachable step s s') (hs : I s) (hR : R s' t') :
    ∃ t, Reachable step' t t' ∧ R s t := by
  obtain ⟨es, hrun⟩ := h
  induction es generalizing s with
  | nil =>
    obtain rfl := Option.some.inj hrun
    exact ⟨t', Reachable.refl t', hR⟩
  | cons e es ih =>
    obtain ⟨s₁, he, hrun⟩ := (run_cons_eq_some step).1 hrun
    obtain ⟨t₁, ht₁, hR₁⟩ := ih (hinv s e s₁ hs he) hrun
    obtain ⟨t, ht, hR⟩ := hstep s e s₁ t₁ hs he hR₁
    exact ⟨t, ht.trans ht₁, hR⟩

end Transition
