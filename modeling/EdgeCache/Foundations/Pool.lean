import EdgeCache.Foundations.Run
import Mathlib.Algebra.BigOperators.Group.Finset.Basic
import Mathlib.Algebra.Order.BigOperators.Group.Finset
import Mathlib.Data.Fintype.BigOperators
import Mathlib.Data.Fintype.Basic

/-!
# Pools of threads over a shared memory

A pool is a shared memory together with the local state of each of its threads. A thread takes one
atomic step at a time (`tstep`), which may read and write the shared memory and changes no other
thread; an event `(w, a)` says that thread `w` takes the step that the action `a` describes. The
runs of `Pool.step` are then exactly the interleavings of the threads.

`Pool.Stable` is the proof rule of non-interference for such a pool: an invariant of the memory
and an assertion on each thread, each thread keeping its own and not interfering with the
others'. `Pool.tally` adds up a quantity over the threads, for counting arguments.
`Pool.Related.simulates` and `Pool.Related.simulates_back` reduce a simulation between two pools to
the steps of one thread, and `Pool.countP_add_rank_le` bounds the steps of a thread by its rank.
-/

/-- A shared memory and the local states of the threads over it. -/
structure Pool (ω γ τ : Type*) where
  shared : γ
  thread : ω → τ

namespace Pool

open Transition

variable {ω γ τ α : Type*}

/-! ## Adding up over the threads -/

section Tally

variable [Fintype ω]

/-- The sum of a quantity over the threads. -/
def tally {M : Type*} [AddCommGroup M] (f : τ → M) (th : ω → τ) : M := ∑ w, f (th w)

theorem tally_update {M : Type*} [AddCommGroup M] [DecidableEq ω] (f : τ → M) (th : ω → τ)
    (w : ω) (t : τ) : tally f (Function.update th w t) = tally f th + (f t - f (th w)) := by
  have h : (∑ v, f (Function.update th w t v)) - ∑ v, f (th v) = f t - f (th w) := by
    rw [← Finset.sum_sub_distrib, Finset.sum_eq_single w]
    · rw [Function.update_self]
    · intro v _ hv
      rw [Function.update_of_ne hv, sub_self]
    · intro hw
      exact absurd (Finset.mem_univ w) hw
  rw [tally, tally, ← h, add_sub_cancel]

/-- A quantity of at most one on each thread adds up to at most the number of threads. -/
theorem tally_le_card (f : τ → ℤ) {th : ω → τ} (h : ∀ w, f (th w) ≤ 1) :
    tally f th ≤ Fintype.card ω := by
  have := Finset.sum_le_card_nsmul Finset.univ (fun w => f (th w)) 1 fun w _ => h w
  simpa [tally] using this

theorem tally_nonneg (f : τ → ℤ) {th : ω → τ} (h : ∀ w, 0 ≤ f (th w)) : 0 ≤ tally f th :=
  Finset.sum_nonneg fun w _ => h w

end Tally

/-! ## Steps and interleavings -/

variable [DecidableEq ω]

section Step

variable (tstep : ω → γ → τ → α → Option (γ × τ))

/-- Thread `e.1` takes a step. -/
def step (s : Pool ω γ τ) (e : ω × α) : Option (Pool ω γ τ) :=
  (tstep e.1 s.shared (s.thread e.1) e.2).map fun r =>
    ⟨r.1, Function.update s.thread e.1 r.2⟩

variable {tstep}

theorem step_eq_some {s s' : Pool ω γ τ} {w : ω} {a : α} :
    step tstep s (w, a) = some s' ↔ ∃ g t, tstep w s.shared (s.thread w) a = some (g, t) ∧
      s' = ⟨g, Function.update s.thread w t⟩ := by
  simp only [step, Option.map_eq_some_iff, Prod.exists]
  constructor
  · rintro ⟨g, t, h, rfl⟩
    exact ⟨g, t, h, rfl⟩
  · rintro ⟨g, t, h, rfl⟩
    exact ⟨g, t, h, rfl⟩

/-- A run of a thread alone. -/
theorem run_alone {s : Pool ω γ τ} {w : ω} {g : γ} {t : τ} {as : List α}
    (h : run (fun q a => tstep w q.1 q.2 a) (s.shared, s.thread w) as = some (g, t)) :
    run (step tstep) s (as.map fun a => (w, a)) = some ⟨g, Function.update s.thread w t⟩ := by
  induction as generalizing s with
  | nil =>
    obtain ⟨rfl, rfl⟩ := Prod.mk.inj (Option.some.inj h)
    simp [run]
  | cons a as ih =>
    obtain ⟨⟨g₁, t₁⟩, ha, hrun⟩ := (run_cons_eq_some _).1 h
    have hstep : step tstep s (w, a) = some ⟨g₁, Function.update s.thread w t₁⟩ :=
      step_eq_some.2 ⟨g₁, t₁, ha, rfl⟩
    have hrest := ih (s := ⟨g₁, Function.update s.thread w t₁⟩) (by simpa using hrun)
    rw [Function.update_idem] at hrest
    exact (run_cons_eq_some _).2 ⟨_, hstep, hrest⟩

/-- What a thread can do alone. -/
theorem reachable_alone {s : Pool ω γ τ} {w : ω} {g : γ} {t : τ}
    (h : Reachable (fun q a => tstep w q.1 q.2 a) (s.shared, s.thread w) (g, t)) :
    Reachable (step tstep) s ⟨g, Function.update s.thread w t⟩ := by
  obtain ⟨as, has⟩ := h
  exact ⟨_, run_alone has⟩

/-- **A thread cannot go on for longer than its rank**, whatever the others do, as long as its
actions satisfy `P`. -/
theorem countP_add_rank_le {rank : τ → ℕ} {w : ω} {P : α → Prop}
    (hrank : ∀ {g t a g' t'}, P a → tstep w g t a = some (g', t') → rank t' < rank t)
    {s s' : Pool ω γ τ} {es : List (ω × α)} (hes : ∀ e ∈ es, e.1 = w → P e.2)
    (h : run (step tstep) s es = some s') :
    (es.countP fun e => e.1 = w) + rank (s'.thread w) ≤ rank (s.thread w) := by
  induction es generalizing s with
  | nil =>
    obtain rfl := Option.some.inj h
    simp
  | cons e es ih =>
    obtain ⟨v, a⟩ := e
    obtain ⟨s₁, he, hrun⟩ := (run_cons_eq_some _).1 h
    have hle := ih (fun e he => hes e (List.mem_cons_of_mem _ he)) hrun
    obtain ⟨g, t, ht, rfl⟩ := step_eq_some.1 he
    rcases eq_or_ne v w with rfl | hv
    · have hlt := hrank (hes _ List.mem_cons_self rfl) ht
      simp only [Function.update_self] at hle
      simp only [List.countP_cons_of_pos, decide_true]
      omega
    · simp only [Function.update_of_ne hv.symm] at hle
      simpa [hv] using hle

end Step

/-! ## Simulations -/

section Simulation

variable {γ' τ' α' : Type*} {tstep : ω → γ → τ → α → Option (γ × τ)}
  {tstep' : ω → γ' → τ' → α' → Option (γ' × τ')} {R : γ → γ' → Prop} {L : ω → τ → τ' → Prop}

/-- The memories are related, and the threads one by one. -/
def Related (R : γ → γ' → Prop) (L : ω → τ → τ' → Prop) (s : Pool ω γ τ) (q : Pool ω γ' τ') : Prop :=
  R s.shared q.shared ∧ ∀ w, L w (s.thread w) (q.thread w)

/-- One thread of related pools goes on in both. -/
theorem Related.update {s : Pool ω γ τ} {q : Pool ω γ' τ'} (h : Related R L s q) {w : ω} {g : γ}
    {t : τ} {g' : γ'} {t' : τ'} (hg : R g g') (ht : L w t t') :
    Related R L ⟨g, Function.update s.thread w t⟩ ⟨g', Function.update q.thread w t'⟩ := by
  refine ⟨hg, fun v => ?_⟩
  rcases eq_or_ne v w with rfl | hv
  · simpa using ht
  · simpa [hv] using h.2 v

/-- **Forward simulation, thread by thread.** The runs of a pool whose steps satisfy `C` are
simulated by another one when each step of a thread is matched by steps of the same thread. -/
theorem Related.run_simulates {C : ω × α → Prop} {s s₁ : Pool ω γ τ} {q : Pool ω γ' τ'}
    {es : List (ω × α)} (h : Related R L s q) (hes : ∀ e ∈ es, C e)
    (hs : run (Pool.step tstep) s es = some s₁)
    (hstep : ∀ {w g t a g₁ t₁ g' t'}, C (w, a) → R g g' → L w t t' →
      tstep w g t a = some (g₁, t₁) →
      ∃ g₁' t₁', Reachable (fun q a => tstep' w q.1 q.2 a) (g', t') (g₁', t₁') ∧
        R g₁ g₁' ∧ L w t₁ t₁') :
    ∃ q₁, Reachable (Pool.step tstep') q q₁ ∧ Related R L s₁ q₁ := by
  induction es generalizing s q with
  | nil =>
    obtain rfl := Option.some.inj hs
    exact ⟨q, Reachable.refl q, h⟩
  | cons e es ih =>
    obtain ⟨w, a⟩ := e
    obtain ⟨s₂, he, hrun⟩ := (run_cons_eq_some _).1 hs
    obtain ⟨g₁, t₁, ht, rfl⟩ := step_eq_some.1 he
    obtain ⟨g₁', t₁', halone, hg, ht'⟩ := hstep (hes _ List.mem_cons_self) h.1 (h.2 w) ht
    obtain ⟨q₁, hq₁, hR⟩ := ih (h.update hg ht') (fun e he => hes e (List.mem_cons_of_mem _ he)) hrun
    exact ⟨q₁, (reachable_alone halone).trans hq₁, hR⟩

/-- The same for all runs. -/
theorem Related.simulates
    (hstep : ∀ {w g t a g₁ t₁ g' t'}, R g g' → L w t t' → tstep w g t a = some (g₁, t₁) →
      ∃ g₁' t₁', Reachable (fun q a => tstep' w q.1 q.2 a) (g', t') (g₁', t₁') ∧
        R g₁ g₁' ∧ L w t₁ t₁')
    {s s₁ : Pool ω γ τ} {q : Pool ω γ' τ'} (h : Related R L s q)
    (hs : Reachable (Pool.step tstep) s s₁) :
    ∃ q₁, Reachable (Pool.step tstep') q q₁ ∧ Related R L s₁ q₁ := by
  obtain ⟨es, hrun⟩ := hs
  exact h.run_simulates (C := fun _ => True) (fun _ _ => trivial) hrun fun _ => hstep

/-- **Backward simulation, thread by thread**, as long as an invariant holds of the first pool. -/
theorem Related.simulates_back {I : Pool ω γ τ → Prop}
    (hinv : ∀ s e s₁, I s → Pool.step tstep s e = some s₁ → I s₁)
    (hstep : ∀ {s : Pool ω γ τ} {w a g₁ t₁ g₁' t₁'}, I s →
      tstep w s.shared (s.thread w) a = some (g₁, t₁) → R g₁ g₁' → L w t₁ t₁' →
      ∃ g' t', Reachable (fun q a => tstep' w q.1 q.2 a) (g', t') (g₁', t₁') ∧
        R s.shared g' ∧ L w (s.thread w) t')
    {s s₁ : Pool ω γ τ} {q₁ : Pool ω γ' τ'} (hs : Reachable (Pool.step tstep) s s₁) (hI : I s)
    (h : Related R L s₁ q₁) :
    ∃ q, Reachable (Pool.step tstep') q q₁ ∧ Related R L s q := by
  refine hs.simulates_back hinv ?_ hI h
  rintro s ⟨w, a⟩ s₁ q₁ hI he h
  obtain ⟨g₁, t₁, ht, rfl⟩ := step_eq_some.1 he
  obtain ⟨g', t', halone, hg, ht'⟩ := hstep hI ht h.1 (by simpa using h.2 w)
  have hback : Reachable (Pool.step tstep') ⟨g', Function.update q₁.thread w t'⟩
      ⟨q₁.shared, Function.update (Function.update q₁.thread w t') w (q₁.thread w)⟩ :=
    reachable_alone (s := ⟨g', Function.update q₁.thread w t'⟩) (by simpa using halone)
  rw [Function.update_idem, Function.update_eq_self] at hback
  refine ⟨_, hback, hg, fun v => ?_⟩
  rcases eq_or_ne v w with rfl | hv
  · simpa using ht'
  · simpa [hv] using h.2 v

end Simulation

/-! ## Assertions on the threads -/

/-- An invariant `G` of the memory and assertions `L` on the threads which no step breaks: neither
the assertion of the thread that takes it (`own`), nor that of another one (`other`). The steps
considered are those at which every thread `t` satisfies `C g t a`. -/
structure Stable (tstep : ω → γ → τ → α → Option (γ × τ)) (C : γ → τ → α → Prop) (G : γ → Prop)
    (L : ω → γ → τ → Prop) : Prop where
  own : ∀ {w g t a g' t'}, C g t a → G g → L w g t → tstep w g t a = some (g', t') →
    G g' ∧ L w g' t'
  other : ∀ {w v g t u a g' t'}, v ≠ w → C g t a → C g u a → G g → L w g t → L v g u →
    tstep w g t a = some (g', t') → L v g' u

/-- The memory satisfies `G` and each thread its assertion. -/
def Holds (G : γ → Prop) (L : ω → γ → τ → Prop) (s : Pool ω γ τ) : Prop :=
  G s.shared ∧ ∀ w, L w s.shared (s.thread w)

/-- At the step, every thread satisfies `C`. -/
def Everywhere (C : γ → τ → α → Prop) (s : Pool ω γ τ) (e : ω × α) (_ : Pool ω γ τ) : Prop :=
  ∀ v, C s.shared (s.thread v) e.2

instance [Fintype ω] {C : γ → τ → α → Prop} [∀ g t a, Decidable (C g t a)] (s : Pool ω γ τ)
    (e : ω × α) (s' : Pool ω γ τ) : Decidable (Everywhere C s e s') :=
  inferInstanceAs (Decidable (∀ v, C s.shared (s.thread v) e.2))

variable {tstep : ω → γ → τ → α → Option (γ × τ)} {C : γ → τ → α → Prop} {G : γ → Prop}
  {L : ω → γ → τ → Prop}

theorem Stable.step (hS : Stable tstep C G L) {s s' : Pool ω γ τ} {e : ω × α}
    (hs : Holds G L s) (hC : Everywhere C s e s') (he : Pool.step tstep s e = some s') :
    Holds G L s' := by
  obtain ⟨w, a⟩ := e
  obtain ⟨g, t, ht, rfl⟩ := step_eq_some.1 he
  obtain ⟨hG, hL⟩ := hs
  obtain ⟨hG', hL'⟩ := hS.own (hC w) hG (hL w) ht
  refine ⟨hG', fun v => ?_⟩
  rcases eq_or_ne v w with rfl | hv
  · simpa using hL'
  · simpa [hv] using hS.other hv (hC w) (hC v) hG (hL w) (hL v) ht

/-- **The rule of non-interference**: a stable assertion holds after every interleaving. -/
theorem Stable.run (hS : Stable tstep C G L) {s s' : Pool ω γ τ} {es : List (ω × α)}
    (hC : Along (Pool.step tstep) (Everywhere C) s es) (hs : Holds G L s)
    (h : Transition.run (Pool.step tstep) s es = some s') : Holds G L s' := by
  have key : ∀ s e s', Holds G L s → Everywhere C s e s' →
      Pool.step tstep s e = some s' → Holds G L s' := fun _ _ _ hI hC he => hS.step hI hC he
  exact hC.invariant key hs h

/-- The rule without a side condition. -/
theorem Stable.reachable (hS : Stable tstep (fun _ _ _ => True) G L) {s s' : Pool ω γ τ}
    (hs : Holds G L s) (h : Reachable (Pool.step tstep) s s') : Holds G L s' := by
  obtain ⟨es, hrun⟩ := h
  exact hS.run ((along_true s es).mono fun _ _ _ _ _ => trivial) hs hrun

end Pool
