import EdgeCache.Foundations.Pool
import Mathlib.Algebra.BigOperators.Group.List.Basic
import Mathlib.Tactic.Abel
import Mathlib.Tactic.Linarith

/-!
# Scripts of atomic updates

Threads which run scripts: lists of updates of the shared memory, made one after the other. The runs
of `Pool.step (threadStep apply script)` are the interleavings of any number of such threads.

An additive quantity of the memory is one that every update changes by a weight of its own
(`Additive`). When every script has the total weight zero, what such a quantity has gained is what
the scripts in progress have left to give back (`Additive.conserved`): so it is as it was at the
start when no script is in progress (`Additive.run_eq`). When moreover the rest of a script never
has a negative weight (`Covered`), it is never greater (`Additive.run_le`).
-/

namespace Script

open Transition

variable {γ α ι ω : Type*}

/-- The memory after a list of updates. -/
def applyAll (apply : α → γ → γ) (us : List α) (g : γ) : γ := us.foldl (fun g u => apply u g) g

/-- The total weight of a list of updates. -/
def weight (f : α → ℤ) (us : List α) : ℤ := (us.map f).sum

@[simp] theorem weight_nil (f : α → ℤ) : weight f [] = 0 := rfl

@[simp] theorem weight_cons (f : α → ℤ) (u : α) (us : List α) :
    weight f (u :: us) = f u + weight f us := by
  simp [weight]

theorem weight_append (f : α → ℤ) (us vs : List α) :
    weight f (us ++ vs) = weight f us + weight f vs := by
  simp [weight]

/-- Every update changes the quantity by its weight. -/
def Additive (apply : α → γ → γ) (Φ : γ → ℤ) (f : α → ℤ) : Prop :=
  ∀ u g, Φ (apply u g) = Φ g + f u

/-- The total weight is zero, and that of no end of the list is negative. -/
def Covered (f : α → ℤ) (us : List α) : Prop :=
  weight f us = 0 ∧ ∀ vs, vs <:+ us → 0 ≤ weight f vs

/-- The ends of a list, one by one. -/
theorem forall_suffix_cons {P : List α → Prop} {u : α} {us : List α} :
    (∀ vs, vs <:+ u :: us → P vs) ↔ P (u :: us) ∧ ∀ vs, vs <:+ us → P vs := by
  simp only [List.suffix_cons_iff, or_imp, forall_and, forall_eq]

/-- A step of a thread: it starts a script if it is not in one, and makes the next update
otherwise. -/
def threadStep (apply : α → γ → γ) (script : ι → List α) (_ : ω) (g : γ) :
    List α → Option ι → Option (γ × List α)
  | [], some i => some (g, script i)
  | u :: us, none => some (apply u g, us)
  | _, _ => none

/-- Threads that have not started a script. -/
def start (ω : Type*) (α : Type*) (g : γ) : Pool ω γ (List α) := ⟨g, fun _ => []⟩

variable {apply : α → γ → γ} {script : ι → List α} {Φ Ψ : γ → ℤ} {f h : α → ℤ}

namespace Additive

theorem sub (hΦ : Additive apply Φ f) (hΨ : Additive apply Ψ h) :
    Additive apply (fun g => Φ g - Ψ g) fun u => f u - h u := fun u g => by
  simp only [hΦ u g, hΨ u g]
  abel

theorem applyAll (hΦ : Additive apply Φ f) (us : List α) (g : γ) :
    Φ (applyAll apply us g) = Φ g + weight f us := by
  induction us generalizing g with
  | nil => simp [Script.applyAll]
  | cons u us ih =>
    have := ih (apply u g)
    rw [hΦ u g] at this
    rw [weight_cons, ← add_assoc]
    exact this

end Additive

/-- What a step of a thread can do. -/
theorem threadStep_cases {w : ω} {g g' : γ} {us us' : List α} {a : Option ι}
    (hstep : threadStep apply script w g us a = some (g', us')) :
    (∃ i, us = [] ∧ us' = script i ∧ g' = g) ∨ (∃ u, us = u :: us' ∧ g' = apply u g) := by
  unfold threadStep at hstep
  split at hstep
  · obtain ⟨rfl, rfl⟩ := Prod.mk.inj (Option.some.inj hstep)
    exact Or.inl ⟨_, rfl, rfl, rfl⟩
  · obtain ⟨rfl, rfl⟩ := Prod.mk.inj (Option.some.inj hstep)
    exact Or.inr ⟨_, rfl, rfl⟩
  · cases hstep

variable [DecidableEq ω]

/-- A thread is at the end of a script, or in no script. -/
theorem suffix_run {g : γ} {s : Pool ω γ (List α)}
    (hs : Reachable (Pool.step (threadStep apply script)) (start ω α g) s) (w : ω) :
    s.thread w = [] ∨ ∃ i, s.thread w <:+ script i := by
  have key : ∀ (s : Pool ω γ (List α)) e s',
      (∀ w, s.thread w = [] ∨ ∃ i, s.thread w <:+ script i) →
      Pool.step (threadStep apply script) s e = some s' →
      ∀ w, s'.thread w = [] ∨ ∃ i, s'.thread w <:+ script i := by
    rintro s ⟨v, a⟩ s' hI he w
    obtain ⟨g', us', hstep, rfl⟩ := Pool.step_eq_some.1 he
    rcases eq_or_ne w v with rfl | hne
    · simp only [Function.update_self]
      rcases threadStep_cases hstep with ⟨i, -, rfl, -⟩ | ⟨u, hus, -⟩
      · exact Or.inr ⟨i, List.suffix_refl _⟩
      · rcases hI w with hnil | ⟨i, hi⟩
        · cases hus.symm.trans hnil
        · rw [hus] at hi
          exact Or.inr ⟨i, (List.suffix_cons u us').trans hi⟩
    · simpa [hne] using hI w
  exact hs.invariant key (fun _ => Or.inl rfl) w

variable [Fintype ω]

/-- **What a quantity has gained is what the scripts in progress will give back**, when every script
has the total weight zero. -/
theorem Additive.conserved (hΦ : Additive apply Φ f) (hzero : ∀ i, weight f (script i) = 0) {g : γ}
    {s : Pool ω γ (List α)}
    (hs : Reachable (Pool.step (threadStep apply script)) (start ω α g) s) :
    Φ s.shared + Pool.tally (weight f) s.thread = Φ g := by
  have key : ∀ (s : Pool ω γ (List α)) e s',
      Φ s.shared + Pool.tally (weight f) s.thread = Φ g →
      Pool.step (threadStep apply script) s e = some s' →
      Φ s'.shared + Pool.tally (weight f) s'.thread = Φ g := by
    rintro s ⟨w, a⟩ s' hI he
    obtain ⟨g', us', hstep, rfl⟩ := Pool.step_eq_some.1 he
    rw [Pool.tally_update]
    rcases threadStep_cases hstep with ⟨i, hus, rfl, rfl⟩ | ⟨u, hus, rfl⟩
    · rw [hus, hzero i, weight_nil]
      linarith
    · simp only [hus, weight_cons, hΦ u s.shared]
      linarith
  exact hs.invariant key (by simp [start, Pool.tally])

/-- The quantity is what it was at the start when no script is in progress. -/
theorem Additive.run_eq (hΦ : Additive apply Φ f) (hzero : ∀ i, weight f (script i) = 0) {g : γ}
    {s : Pool ω γ (List α)}
    (hs : Reachable (Pool.step (threadStep apply script)) (start ω α g) s)
    (hidle : ∀ w, s.thread w = []) : Φ s.shared = Φ g := by
  have htally : Pool.tally (weight f) s.thread = 0 := by simp [Pool.tally, hidle]
  have := hΦ.conserved hzero hs
  rwa [htally, add_zero] at this

/-- The quantity never exceeds what it was at the start when every script is covered. -/
theorem Additive.run_le (hΦ : Additive apply Φ f) (hf : ∀ i, Covered f (script i)) {g : γ}
    {s : Pool ω γ (List α)}
    (hs : Reachable (Pool.step (threadStep apply script)) (start ω α g) s) :
    Φ s.shared ≤ Φ g := by
  have htally : 0 ≤ Pool.tally (weight f) s.thread := Pool.tally_nonneg _ fun w => by
    rcases suffix_run hs w with hnil | ⟨i, hi⟩
    · rw [hnil, weight_nil]
    · exact (hf i).2 _ hi
  have := hΦ.conserved (fun i => (hf i).1) hs
  linarith

end Script
