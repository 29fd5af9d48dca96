import EdgeCache.Foundations.Timed

/-!
# Executions in blocks

An execution can be described block by block: a block is a run, and takes no time. So the blocks are
an execution of the transition system whose steps are the runs, and they are flattened to one whose
steps are those of the system (`Timed.exists_flatten`). Both are in the same state at every time.
Blocks, in turn, are chosen one after the other, if some invariant lets each of them be followed by
another one (`Timed.exists_of_step`).
-/

namespace Transition

namespace Timed

variable {σ ε K : Type*} [LinearOrder K] {step : σ → ε → Option σ}

/-- An execution with given times, if whatever is reached by its first `n` events allows for
another. -/
theorem exists_of_step {P : ℕ → σ → Prop} {Q : ℕ → ε → Prop}
    (hstep : ∀ n s, P n s → ∃ e s', Q n e ∧ step s e = some s' ∧ P (n + 1) s') {time : ℕ → K}
    (hmono : Monotone time) (hunbounded : ∀ t, ∃ n, t < time n) {s : σ} (hs : P 0 s) :
    ∃ X : Timed step K, X.state 0 = s ∧ X.time = time ∧ ∀ n, P n (X.state n) ∧ Q n (X.event n) := by
  choose event next hQ hnext hP using hstep
  let state : ∀ n, {s // P n s} := fun n =>
    Nat.rec ⟨s, hs⟩ (fun n q => ⟨next n q.1 q.2, hP n q.1 q.2⟩) n
  exact ⟨⟨fun n => (state n).1, fun n => event n (state n).1 (state n).2, time,
    fun n => hnext n _ (state n).2, hmono, hunbounded⟩, rfl, rfl, fun n => ⟨(state n).2, hQ n _ _⟩⟩

/-! ## Blocks -/

section Blocks

variable (Y : Timed (run step) K)

/-- The place of the next event: its block, and its index there. -/
def next (p : ℕ × ℕ) : ℕ × ℕ :=
  if p.2 + 1 < (Y.event p.1).length then (p.1, p.2 + 1) else (p.1 + 1, 0)

/-- The place of the `n`-th event. -/
def place : ℕ → ℕ × ℕ
  | 0 => (0, 0)
  | n + 1 => Y.next (place n)

theorem place_lt (hne : ∀ k, Y.event k ≠ []) (n : ℕ) :
    (Y.place n).2 < (Y.event (Y.place n).1).length := by
  have hpos : ∀ k, 0 < (Y.event k).length := fun k => List.length_pos_iff.2 (hne k)
  cases n with
  | zero => exact hpos 0
  | succ n =>
    rw [place, next]
    split_ifs with hlt
    · exact hlt
    · exact hpos _

/-- A block begins only after the one before it. -/
theorem place_succ_cases (n : ℕ) : (Y.place (n + 1)).1 = (Y.place n).1 ∨
    Y.place (n + 1) = ((Y.place n).1 + 1, 0) := by
  rw [place, next]
  split_ifs
  · exact Or.inl rfl
  · exact Or.inr rfl

theorem monotone_place : Monotone fun n => (Y.place n).1 := monotone_nat_of_le_succ fun n => by
  rcases Y.place_succ_cases n with h | h <;> rw [h]
  exact Nat.le_succ _

/-- Each event of each block has its turn. -/
theorem exists_place (hne : ∀ k, Y.event k ≠ []) {k i : ℕ} (hi : i < (Y.event k).length) :
    ∃ n, Y.place n = (k, i) := by
  have hwithin : ∀ k n, Y.place n = (k, 0) → ∀ i, i < (Y.event k).length →
      ∃ n, Y.place n = (k, i) := fun k n hn i => by
    induction i with
    | zero => exact fun _ => ⟨n, hn⟩
    | succ i ih =>
      intro hi
      obtain ⟨m, hm⟩ := ih (Nat.lt_of_succ_lt hi)
      exact ⟨m + 1, by rw [place, next, hm, if_pos hi]⟩
  have hblock : ∀ k, ∃ n, Y.place n = (k, 0) := fun k => by
    induction k with
    | zero => exact ⟨0, rfl⟩
    | succ k ih =>
      obtain ⟨n, hn⟩ := ih
      have hpos := List.length_pos_iff.2 (hne k)
      obtain ⟨m, hm⟩ := hwithin k n hn ((Y.event k).length - 1) (by omega)
      refine ⟨m + 1, ?_⟩
      rw [place, next, hm, if_neg (by simp only; omega)]
  obtain ⟨n, hn⟩ := hblock k
  exact hwithin k n hn i hi

/-- `X` makes the events of the blocks of `Y`, one after the other. -/
structure Flattens (X : Timed step K) (Y : Timed (run step) K) : Prop where
  state_zero : X.state 0 = Y.state 0
  stateAt : ∀ t, X.stateAt t = Y.stateAt t
  blocks : ∀ n, ∃ k pre post, Y.event k = pre ++ X.event n :: post ∧
    run step (Y.state k) pre = some (X.state n) ∧ X.time n = Y.time k ∧
      (post = [] → X.time (n + 1) = Y.time (k + 1))
  visits : ∀ k pre e post, Y.event k = pre ++ e :: post → ∃ n, X.event n = e ∧
    run step (Y.state k) pre = some (X.state n) ∧ X.time n = Y.time k

/-- Event `n` of `X` is the one at place `n`, and `X` is then where the events before it in its block
lead. -/
structure InPlaces (X : Timed step K) (Y : Timed (run step) K) : Prop where
  before : ∀ n, run step (Y.state (Y.place n).1) ((Y.event (Y.place n).1).take (Y.place n).2) =
    some (X.state n)
  event : ∀ n, (Y.event (Y.place n).1)[(Y.place n).2]? = some (X.event n)
  time : ∀ n, X.time n = Y.time (Y.place n).1

/-- At any time, a block is about to begin. -/
theorem InPlaces.place_count {X : Timed step K} {Y : Timed (run step) K} (h : X.InPlaces Y) (t : K) :
    Y.place (X.count t) = (Y.count t, 0) := by
  have hcount : ∀ n, n < X.count t ↔ (Y.place n).1 < Y.count t := fun n => by
    rw [X.lt_count_iff, Y.lt_count_iff, h.time]
  have hge : Y.count t ≤ (Y.place (X.count t)).1 := not_lt.1 fun h => lt_irrefl _ ((hcount _).2 h)
  cases hc : X.count t with
  | zero =>
    rw [hc] at hge
    exact Prod.ext (Nat.le_zero.1 hge).symm rfl
  | succ n =>
    rw [hc] at hge
    have hn : (Y.place n).1 < Y.count t := (hcount n).1 (hc ▸ n.lt_succ_self)
    rcases Y.place_succ_cases n with h | h
    · omega
    · rw [h] at hge ⊢
      exact Prod.ext (by simp only at hge ⊢; omega) rfl

theorem InPlaces.flattens {X : Timed step K} {Y : Timed (run step) K} (h : X.InPlaces Y)
    (hne : ∀ k, Y.event k ≠ []) : X.Flattens Y where
  state_zero := (Option.some.inj (h.before 0)).symm
  stateAt := fun t => by
    have hbefore := h.before (X.count t)
    rw [h.place_count] at hbefore
    exact (Option.some.inj hbefore).symm
  blocks := fun n => by
    obtain ⟨hlt, hevent⟩ := List.getElem?_eq_some_iff.1 (h.event n)
    refine ⟨(Y.place n).1, _, (Y.event (Y.place n).1).drop ((Y.place n).2 + 1), ?_, h.before n,
      h.time n, fun hpost => ?_⟩
    · rw [← hevent]
      simp
    · have hend : ¬ (Y.place n).2 + 1 < (Y.event (Y.place n).1).length := by
        rw [not_lt]
        exact List.drop_eq_nil_iff.1 hpost
      rw [h.time, place, next, if_neg hend]
  visits := fun k pre e post hk => by
    obtain ⟨n, hn⟩ := Y.exists_place hne (k := k) (i := pre.length) (by simp [hk])
    have hbefore := h.before n
    have hevent := h.event n
    rw [hn, hk] at hbefore hevent
    exact ⟨n, by simpa using hevent.symm, by simpa using hbefore, by rw [h.time, hn]⟩

/-- A run, event by event. -/
theorem exists_of_run {s t : σ} {es : List ε} (h : run step s es = some t) {i : ℕ}
    (hi : i < es.length) :
    ∃ s₁ s₂, run step s (es.take i) = some s₁ ∧ step s₁ es[i] = some s₂ ∧
      run step s (es.take (i + 1)) = some s₂ := by
  have hes : es = es.take i ++ es[i] :: es.drop (i + 1) := by simp
  rw [hes] at h
  obtain ⟨s₁, h₁, hrest⟩ := (run_append_eq_some step).1 h
  obtain ⟨s₂, h₂, -⟩ := (run_cons_eq_some step).1 hrest
  refine ⟨s₁, s₂, h₁, h₂, ?_⟩
  rw [List.take_add_one, List.getElem?_eq_getElem hi]
  exact (run_append_eq_some step).2 ⟨s₁, h₁, (run_cons_eq_some step).2 ⟨s₂, h₂, rfl⟩⟩

theorem exists_inPlaces (hne : ∀ k, Y.event k ≠ []) : ∃ X : Timed step K, X.InPlaces Y := by
  have hlt := Y.place_lt hne
  have hstate : ∀ n, ∃ s, run step (Y.state (Y.place n).1)
      ((Y.event (Y.place n).1).take (Y.place n).2) = some s := fun n => by
    obtain ⟨s, -, hs, -⟩ := exists_of_run (Y.step_eq _) (hlt n)
    exact ⟨s, hs⟩
  choose state hstate using hstate
  have hstep : ∀ n, step (state n) ((Y.event (Y.place n).1).get ⟨_, hlt n⟩) = some (state (n + 1)) := by
    intro n
    obtain ⟨s₁, s₂, h₁, h₂, hnext⟩ := exists_of_run (Y.step_eq _) (hlt n)
    obtain rfl := Option.some.inj ((hstate n).symm.trans h₁)
    refine h₂.trans ?_
    have hn := hstate (n + 1)
    rw [place, next] at hn
    split_ifs at hn with hi
    · exact hnext.symm.trans hn
    · -- the end of the block
      rw [List.take_of_length_le (not_lt.1 hi), Y.step_eq] at hnext
      exact hnext.symm.trans hn
  have hunbounded : ∀ t, ∃ n, t < Y.time (Y.place n).1 := fun t => by
    obtain ⟨k, hk⟩ := Y.unbounded t
    obtain ⟨n, hn⟩ := Y.exists_place hne (List.length_pos_iff.2 (hne k))
    exact ⟨n, by rwa [hn]⟩
  exact ⟨⟨state, _, _, hstep, Y.monotone_time.comp Y.monotone_place, hunbounded⟩, hstate,
    fun n => List.getElem?_eq_getElem (hlt n), fun _ => rfl⟩

/-- **Blocks of events are an execution.** -/
theorem exists_flatten (hne : ∀ k, Y.event k ≠ []) : ∃ X : Timed step K, X.Flattens Y := by
  obtain ⟨X, hX⟩ := Y.exists_inPlaces hne
  exact ⟨X, hX.flattens hne⟩

end Blocks

end Timed

end Transition
