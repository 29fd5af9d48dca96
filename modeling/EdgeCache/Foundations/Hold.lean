import Mathlib.Algebra.Order.Field.Basic
import Mathlib.Tactic.Linarith

/-!
# Alerts that wait

An alert with a hold looks at its expression at each evaluation. It becomes active when the
expression holds, inactive when it does not, and fires when it has been active for at least the
hold. Only the time at which it became active is kept (`Status`), so whether it fires has to be told
from that.

`firing_run_iff` does so: it fires when the expression has held at every evaluation since one that
is a hold ago. When the evaluations are regular and the hold is a number of intervals, that is: at
every evaluation of the last hold (`firing_regular_iff`).
-/

namespace Hold

variable {K : Type*}

/-- An alert is inactive, or active since some time. -/
inductive Status (K : Type*)
  | inactive
  | active (since : K)
  deriving DecidableEq

/-- The alert after an evaluation at time `now`. -/
def Status.eval (now : K) (holds : Prop) [Decidable holds] (s : Status K) : Status K :=
  if holds then
    match s with
    | .inactive => .active now
    | .active since => .active since
  else .inactive

/-- It has been active for at least `hold`. -/
def Status.Firing [Sub K] [LE K] (hold now : K) : Status K → Prop
  | .inactive => False
  | .active since => hold ≤ now - since

variable (time : ℕ → K) (expr : ℕ → Prop) [DecidablePred expr]

/-- The alert after evaluation `n`, when evaluation `k` is at `time k`. -/
def run : ℕ → Status K
  | 0 => Status.eval (time 0) (expr 0) .inactive
  | n + 1 => Status.eval (time (n + 1)) (expr (n + 1)) (run n)

/-- The expression holds at evaluations `m` to `n`. -/
def Throughout (expr : ℕ → Prop) (m n : ℕ) : Prop := ∀ k, m ≤ k → k ≤ n → expr k

variable {time expr}

omit [DecidablePred expr] in
theorem Throughout.succ {m n : ℕ} (h : Throughout expr m n) (hn : expr (n + 1)) :
    Throughout expr m (n + 1) := fun k hm hk => by
  rcases Nat.le_succ_iff.1 hk with hk | rfl
  · exact h k hm hk
  · exact hn

/-- An active alert has been so since an evaluation from which on its expression has held. -/
theorem throughout_of_active {n : ℕ} {since : K} (h : run time expr n = .active since) :
    ∃ m ≤ n, since = time m ∧ Throughout expr m n := by
  induction n generalizing since with
  | zero =>
    simp only [run, Status.eval] at h
    split_ifs at h with h0
    obtain rfl := Status.active.inj h
    exact ⟨0, le_rfl, rfl, fun k _ hk => by rwa [Nat.le_zero.1 hk]⟩
  | succ n ih =>
    simp only [run, Status.eval] at h
    split_ifs at h with hn
    split at h <;> obtain rfl := Status.active.inj h
    · exact ⟨n + 1, le_rfl, rfl, fun k hm hk => by rwa [le_antisymm hk hm]⟩
    · next hrun =>
      obtain ⟨m, hm, hsince, hexpr⟩ := ih hrun
      exact ⟨m, hm.trans (Nat.le_succ n), hsince, hexpr.succ hn⟩

/-- While its expression holds, an alert is active, since that began or before. -/
theorem active_of_throughout {m n : ℕ} (hmn : m ≤ n) (h : Throughout expr m n) :
    ∃ l ≤ m, run time expr n = .active (time l) := by
  have hn : expr n := h n hmn le_rfl
  induction n with
  | zero =>
    obtain rfl := Nat.le_zero.1 hmn
    exact ⟨0, le_rfl, by simp [run, Status.eval, hn]⟩
  | succ n ih =>
    rcases hmn.lt_or_eq with hlt | rfl
    · have hmn' : m ≤ n := Nat.lt_succ_iff.1 hlt
      obtain ⟨l, hl, hrun⟩ := ih hmn' (fun k hm hk => h k hm (hk.trans (Nat.le_succ n)))
        (h n hmn' (Nat.le_succ n))
      exact ⟨l, hl, by simp [run, Status.eval, hn, hrun]⟩
    · cases hrun : run time expr n with
      | inactive => exact ⟨n + 1, le_rfl, by simp [run, Status.eval, hn, hrun]⟩
      | active since =>
        obtain ⟨l, hl, rfl, -⟩ := throughout_of_active hrun
        exact ⟨l, hl.trans (Nat.le_succ n), by simp [run, Status.eval, hn, hrun]⟩

variable [Field K] [LinearOrder K] [IsStrictOrderedRing K]

/-- **When an alert fires**, whatever the times of its evaluations are. -/
theorem firing_run_iff (htime : Monotone time) {hold : K} {n : ℕ} :
    (run time expr n).Firing hold (time n) ↔
      ∃ m ≤ n, time m ≤ time n - hold ∧ Throughout expr m n := by
  constructor
  · intro h
    cases hrun : run time expr n with
    | inactive => rw [hrun] at h; exact h.elim
    | active since =>
      rw [hrun] at h
      obtain ⟨m, hm, rfl, hexpr⟩ := throughout_of_active hrun
      exact ⟨m, hm, by simp only [Status.Firing] at h; linarith, hexpr⟩
  · rintro ⟨m, hm, hle, hexpr⟩
    obtain ⟨l, hl, hrun⟩ : ∃ l ≤ m, run time expr n = .active (time l) :=
      active_of_throughout hm hexpr
    have := htime hl
    rw [hrun]
    simp only [Status.Firing]
    linarith

/-- When the evaluations are `interval` apart, an alert whose hold is `h` intervals fires exactly
when its expression has held at the last `h + 1` evaluations. -/
theorem firing_regular_iff {phase interval : K} (hinterval : 0 < interval)
    (htime : ∀ k : ℕ, time k = phase + interval * k) (h n : ℕ) :
    (run time expr n).Firing (interval * h) (time n) ↔ h ≤ n ∧ Throughout expr (n - h) n := by
  have hmono : Monotone time := fun j k hjk => by
    have : interval * j ≤ interval * k :=
      mul_le_mul_of_nonneg_left (by exact_mod_cast hjk) hinterval.le
    rw [htime j, htime k]
    linarith
  -- evaluation `m` is a hold before evaluation `n`
  have hle : ∀ m : ℕ, time m ≤ time n - interval * h ↔ m + h ≤ n := fun m => by
    rw [htime m, htime n, le_sub_iff_add_le, add_assoc, add_le_add_iff_left, ← mul_add,
      mul_le_mul_iff_of_pos_left hinterval]
    exact_mod_cast Iff.rfl
  rw [firing_run_iff hmono]
  constructor
  · rintro ⟨m, -, hm, hexpr⟩
    rw [hle] at hm
    exact ⟨by omega, fun k hk hkn => hexpr k (by omega) hkn⟩
  · rintro ⟨hhn, hexpr⟩
    exact ⟨n - h, Nat.sub_le n h, (hle _).2 (by omega), hexpr⟩

end Hold
