import EdgeCache.Foundations.Run
import Mathlib.Algebra.BigOperators.Intervals
import Mathlib.Algebra.Order.Archimedean.Basic
import Mathlib.Data.Finset.Max
import Mathlib.Data.Nat.Find
import Mathlib.Tactic.Linarith

/-!
# Executions in time

An execution goes on for ever, and each of its events has a time. The times do not decrease and have
no bound, so there is a state at every time (`Timed.stateAt`): the one after all events up to then.
A quantity that no step decreases is a monotone function of time (`Timed.monotone_at`), and what the
steps from one time to another preserve holds at the second if it does at the first
(`Timed.invariant_from`).
-/

namespace Transition

/-- An execution of a transition system, and the times of its events. -/
structure Timed {σ ε : Type*} (step : σ → ε → Option σ) (K : Type*) [LinearOrder K] where
  state : ℕ → σ
  event : ℕ → ε
  time : ℕ → K
  step_eq : ∀ n, step (state n) (event n) = some (state (n + 1))
  monotone_time : Monotone time
  unbounded : ∀ t, ∃ n, t < time n

namespace Timed

variable {σ ε K : Type*} [LinearOrder K] {step : σ → ε → Option σ} (X : Timed step K)

/-- The number of events up to time `t`. -/
def count (t : K) : ℕ := Nat.find (X.unbounded t)

/-- The state at time `t`. -/
def stateAt (t : K) : σ := X.state (X.count t)

theorem lt_count_iff {n : ℕ} {t : K} : n < X.count t ↔ X.time n ≤ t := by
  rw [count, Nat.lt_find_iff]
  constructor
  · exact fun h => not_lt.1 (h n le_rfl)
  · exact fun h m hm => not_lt.2 ((X.monotone_time hm).trans h)

theorem count_mono : Monotone X.count := fun t u htu => by
  by_contra hlt
  have hle : X.time (X.count u) ≤ t := X.lt_count_iff.1 (not_le.1 hlt)
  exact lt_irrefl _ (X.lt_count_iff.2 (hle.trans htu))

theorem count_le_iff {n : ℕ} {t : K} : X.count t ≤ n ↔ t < X.time n := by
  rw [← not_lt, X.lt_count_iff, not_le]

/-- At the time of an event, it is the last one, if no two events are at the same time. -/
theorem count_time (h : StrictMono X.time) (n : ℕ) : X.count (X.time n) = n + 1 :=
  eq_of_forall_lt_iff fun m => by rw [lt_count_iff, h.le_iff_le, Nat.lt_succ_iff]

/-- A predicate that the events from the `m`-th up to the `n`-th preserve. -/
theorem invariant_between {I : σ → Prop} {m n : ℕ} (hm : I (X.state m)) (hmn : m ≤ n)
    (hstep : ∀ k, m ≤ k → k < n → I (X.state k) → I (X.state (k + 1))) : I (X.state n) := by
  induction n, hmn using Nat.le_induction with
  | base => exact hm
  | succ n hmn ih =>
    exact hstep n hmn n.lt_succ_self (ih fun k hk hkn => hstep k hk (hkn.trans n.lt_succ_self))

/-- What the events from time `F` to time `t` preserve, of the execution before them. -/
theorem history_from {P : ℕ → Prop} {F t : K} (hF : P (X.count F)) (ht : F ≤ t)
    (hstep : ∀ n, F < X.time n → X.time n ≤ t → P n → P (n + 1)) : P (X.count t) := by
  have key : ∀ n, X.count F ≤ n → n ≤ X.count t → P n := by
    intro n hn
    induction n, hn using Nat.le_induction with
    | base => exact fun _ => hF
    | succ n hn ih =>
      exact fun hnt => hstep n (X.count_le_iff.1 hn) (X.lt_count_iff.1 hnt) (ih (Nat.le_of_succ_le hnt))
  exact key _ (X.count_mono ht) le_rfl

/-- A predicate that the steps from time `F` to time `t` preserve. -/
theorem invariant_from {I : σ → Prop} {F t : K} (hF : I (X.stateAt F)) (ht : F ≤ t)
    (hstep : ∀ n, F < X.time n → X.time n ≤ t → I (X.state n) → I (X.state (n + 1))) :
    I (X.stateAt t) :=
  X.history_from (P := fun n => I (X.state n)) hF ht hstep

theorem reachable (n : ℕ) : Reachable step (X.state 0) (X.state n) :=
  X.invariant_between (I := Reachable step (X.state 0)) (Reachable.refl _) n.zero_le
    fun k _ _ hk => hk.concat (X.step_eq k)

/-- **A quantity that no step decreases is monotone in time.** -/
theorem monotone_at {α : Type*} [Preorder α] {f : σ → α}
    (hstep : ∀ s e s', step s e = some s' → f s ≤ f s') : Monotone fun t => f (X.stateAt t) := by
  have hmono : Monotone fun n => f (X.state n) := monotone_nat_of_le_succ fun n =>
    hstep _ _ _ (X.step_eq n)
  exact hmono.comp X.count_mono

/-- The events after time `s`, up to time `t`. -/
def during (s t : K) : Finset ℕ := Finset.Ico (X.count s) (X.count t)

theorem mem_during {n : ℕ} {s t : K} : n ∈ X.during s t ↔ s < X.time n ∧ X.time n ≤ t := by
  rw [during, Finset.mem_Ico, X.lt_count_iff, X.count_le_iff]

/-- A count that only some of the steps add to, one each. -/
theorem stateAt_le_add_card {f : σ → ℕ} {P : ℕ → Prop} [DecidablePred P]
    (hstep : ∀ n, f (X.state (n + 1)) ≤ f (X.state n) + if P n then 1 else 0) {s t : K} (hst : s ≤ t) :
    f (X.stateAt t) ≤ f (X.stateAt s) + ((X.during s t).filter P).card := by
  have key : ∀ n, X.count s ≤ n →
      f (X.state n) ≤ f (X.stateAt s) + ∑ k ∈ Finset.Ico (X.count s) n, if P k then 1 else 0 := by
    intro n hn
    induction n, hn using Nat.le_induction with
    | base => simp [stateAt]
    | succ n hn ih =>
      rw [Finset.sum_Ico_succ_top hn, ← add_assoc]
      exact (hstep n).trans (Nat.add_le_add_right ih _)
  rw [Finset.card_filter]
  exact key _ (X.count_mono hst)

/-! ## More events at first -/

/-- The execution that begins with another event. -/
def cons (s : σ) (e : ε) (t : K) (hs : step s e = some (X.state 0)) (ht : t ≤ X.time 0) :
    Timed step K where
  state | 0 => s | n + 1 => X.state n
  event | 0 => e | n + 1 => X.event n
  time | 0 => t | n + 1 => X.time n
  step_eq | 0 => hs | n + 1 => X.step_eq n
  monotone_time := monotone_nat_of_le_succ fun
    | 0 => ht
    | n + 1 => X.monotone_time n.le_succ
  unbounded := fun u => by
    obtain ⟨n, hn⟩ := X.unbounded u
    exact ⟨n + 1, hn⟩

theorem stateAt_cons {s : σ} {e : ε} {t u : K} {hs : step s e = some (X.state 0)} {ht : t ≤ X.time 0}
    (hu : t ≤ u) : (X.cons s e t hs ht).stateAt u = X.stateAt u := by
  have hcount : (X.cons s e t hs ht).count u = X.count u + 1 :=
    eq_of_forall_lt_iff fun n => by
      rw [lt_count_iff]
      cases n with
      | zero => exact iff_of_true hu (Nat.succ_pos _)
      | succ n => exact (X.lt_count_iff.symm).trans (Nat.succ_lt_succ_iff.symm)
  rw [stateAt, hcount]
  rfl

/-- Before the first event. -/
theorem stateAt_of_lt {u : K} (hu : u < X.time 0) : X.stateAt u = X.state 0 := by
  rw [stateAt, Nat.le_zero.1 (X.count_le_iff.2 hu)]

/-- `Y` has the events `es` at time `t`, from state `s`, and goes on as `X`. -/
structure Burst (Y : Timed step K) (s : σ) (es : List ε) (t : K) (X : Timed step K) : Prop where
  state_zero : Y.state 0 = s
  le_time : t ≤ Y.time 0
  stateAt : ∀ u, t ≤ u → Y.stateAt u = X.stateAt u
  events : ∀ n, Y.event n ∈ es ∧ Y.time n = t ∨ ∃ m, Y.event n = X.event m ∧ Y.time n = X.time m
  visits : ∀ pre e post s', es = pre ++ e :: post → run step s pre = some s' →
    ∃ n, Y.state n = s' ∧ Y.event n = e ∧ Y.time n = t
  later : ∀ m, ∃ n, Y.state n = X.state m ∧ Y.event n = X.event m ∧ Y.time n = X.time m

theorem exists_burst {s : σ} {es : List ε} {t : K} (hs : run step s es = some (X.state 0))
    (ht : t ≤ X.time 0) : ∃ Y : Timed step K, Y.Burst s es t X := by
  induction es generalizing s with
  | nil =>
    refine ⟨X, (Option.some.inj hs).symm, ht, fun _ _ => rfl, fun n => Or.inr ⟨n, rfl, rfl⟩, ?_,
      fun m => ⟨m, rfl, rfl, rfl⟩⟩
    intro pre e post s' hpre
    simp at hpre
  | cons e es ih =>
    obtain ⟨s₁, he, hrun⟩ := (run_cons_eq_some step).1 hs
    obtain ⟨Y, hY⟩ := ih hrun
    rw [← hY.state_zero] at he
    refine ⟨Y.cons s e t he hY.le_time, rfl, le_rfl, fun u hu => ?_, fun n => ?_, ?_, fun m => ?_⟩
    · exact (Y.stateAt_cons hu).trans (hY.stateAt u hu)
    · cases n with
      | zero => exact Or.inl ⟨List.mem_cons_self, rfl⟩
      | succ n => exact (hY.events n).imp_left fun ⟨hmem, htime⟩ => ⟨List.mem_cons_of_mem e hmem, htime⟩
    · rintro (_ | ⟨e', pre⟩) e'' post s' hpre hpost
      · obtain ⟨rfl, rfl⟩ := List.cons.inj hpre
        exact ⟨0, Option.some.inj hpost, rfl, rfl⟩
      · obtain ⟨rfl, rfl⟩ := List.cons.inj hpre
        rw [run_cons, he, Option.bind_some, hY.state_zero] at hpost
        obtain ⟨n, hn⟩ := hY.visits pre e'' post s' rfl hpost
        exact ⟨n + 1, hn⟩
    · obtain ⟨n, hn⟩ := hY.later m
      exact ⟨n + 1, hn⟩

end Timed

/-- In an interval there is room for a bounded number of events, if any two of them are `gap`
apart. -/
theorem card_mul_le_of_apart {K : Type*} [Field K] [LinearOrder K] [IsStrictOrderedRing K]
    (time : ℕ → K) {gap s t : K} {S : Finset ℕ} (hst : s - gap ≤ t)
    (hS : ∀ n ∈ S, s ≤ time n ∧ time n ≤ t)
    (hapart : ∀ m ∈ S, ∀ n ∈ S, m < n → time m + gap ≤ time n) :
    S.card * gap ≤ t - s + gap := by
  induction S using Finset.induction_on_max generalizing t with
  | empty =>
    rw [Finset.card_empty, Nat.cast_zero, zero_mul]
    linarith
  | insert a S hmax ih =>
    -- the others fit before the last one
    obtain ⟨hlow, hhigh⟩ := hS a (Finset.mem_insert_self a S)
    have hbefore : ∀ n ∈ S, s ≤ time n ∧ time n ≤ time a - gap := fun n hn => by
      have := hapart n (Finset.mem_insert_of_mem hn) a (Finset.mem_insert_self a S) (hmax n hn)
      exact ⟨(hS n (Finset.mem_insert_of_mem hn)).1, by linarith⟩
    have hcard := ih (t := time a - gap) (by linarith) hbefore fun m hm n hn =>
      hapart m (Finset.mem_insert_of_mem hm) n (Finset.mem_insert_of_mem hn)
    rw [Finset.card_insert_of_notMem fun ha => lt_irrefl a (hmax a ha)]
    push_cast
    linarith

/-! ## Events at a fixed rate -/

section Periodic

variable {σ ε K : Type*} [Field K] [LinearOrder K] [IsStrictOrderedRing K] {step : σ → ε → Option σ}

theorem monotone_periodic {rate : K} (hrate : 0 < rate) : Monotone fun n : ℕ => (n : K) / rate :=
  fun m n h => div_le_div_of_nonneg_right (by exact_mod_cast h) hrate.le

theorem unbounded_periodic [Archimedean K] {rate : K} (hrate : 0 < rate) (t : K) :
    ∃ n : ℕ, t < n / rate := by
  obtain ⟨n, hn⟩ := exists_nat_gt (t * rate)
  exact ⟨n, (lt_div_iff₀ hrate).2 hn⟩

/-- The execution with `rate` events per second, the first one at time 0. -/
def Timed.periodic [Archimedean K] (state : ℕ → σ) (event : ℕ → ε) {rate : K} (hrate : 0 < rate)
    (step_eq : ∀ n, step (state n) (event n) = some (state (n + 1))) : Timed step K where
  state := state
  event := event
  time := fun n => n / rate
  step_eq := step_eq
  monotone_time := monotone_periodic hrate
  unbounded := unbounded_periodic hrate

variable {X : Timed step K} {rate : K} (hrate : 0 < rate) (hX : ∀ n, X.time n = n / rate)

include hrate hX

theorem Timed.lt_count_periodic {n : ℕ} {t : K} : n < X.count t ↔ (n : K) ≤ rate * t := by
  rw [Timed.lt_count_iff, hX, mul_comm, ← div_le_iff₀ hrate]

theorem Timed.count_periodic (n : ℕ) : X.count (n / rate) = n + 1 := by
  have hstrict : StrictMono X.time := fun k l hkl => by
    rw [hX, hX]
    exact div_lt_div_of_pos_right (by exact_mod_cast hkl) hrate
  rw [← hX, X.count_time hstrict]

theorem Timed.mul_lt_count_periodic (t : K) : rate * t < X.count t :=
  not_le.1 fun h => lt_irrefl _ ((Timed.lt_count_periodic hrate hX).2 h)

theorem Timed.count_periodic_le_add_one {t : K} (ht : 0 < X.count t) :
    (X.count t : K) ≤ rate * t + 1 := by
  obtain ⟨n, hn⟩ := Nat.exists_eq_succ_of_ne_zero ht.ne'
  have hlt : n < X.count t := by omega
  have hle : (n : K) ≤ rate * t := (Timed.lt_count_periodic hrate hX).1 hlt
  rw [hn]
  push_cast
  linarith

/-- There are no more than `rate` events per second, apart from one. -/
theorem Timed.count_periodic_le {s t : K} (hst : s ≤ t) :
    (X.count t : K) - X.count s ≤ rate * (t - s) + 1 := by
  have hs : rate * s < X.count s := Timed.mul_lt_count_periodic hrate hX s
  rcases Nat.eq_zero_or_pos (X.count t) with hzero | hpos
  · have hle := mul_le_mul_of_nonneg_left hst hrate.le
    have : (0 : K) ≤ X.count s := Nat.cast_nonneg _
    rw [mul_sub, hzero, Nat.cast_zero]
    linarith
  · have ht := Timed.count_periodic_le_add_one hrate hX hpos
    rw [mul_sub]
    linarith

/-- There are no fewer, from time 0 on, apart from one. -/
theorem Timed.le_count_periodic {s : K} (hs : 0 ≤ s) (t : K) :
    rate * (t - s) - 1 ≤ (X.count t : K) - X.count s := by
  have hpos : 0 < X.count s :=
    (Timed.lt_count_periodic hrate hX).2 (by simpa using mul_nonneg hrate.le hs)
  have hle := Timed.count_periodic_le_add_one hrate hX hpos
  have hlt : rate * t < X.count t := Timed.mul_lt_count_periodic hrate hX t
  rw [mul_sub]
  linarith

end Periodic

end Transition
