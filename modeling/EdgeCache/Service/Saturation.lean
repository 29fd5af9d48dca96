import EdgeCache.Capacity.Summary
import EdgeCache.Service.Faults

/-!
# The capacity of the service

From the worker threads to the forecast. `per_replica_degraded` takes it for granted that a replica
whose requests each hold one of `N` threads for `W` seconds serves no more than `N / W` of them per
second. In the service a thread handles one request after the other: between two that it serves, it
has taken up the second one (`exists_take`). So the requests of a thread are `W` apart, and the
forecast is an upper bound in every execution (`degraded_capacity`).
-/

namespace EdgeCache.Service

open Capacity Transition

variable {ω ρ : Type*} [DecidableEq ρ] {D : Rollout ω ρ} {w : ω} {M M' : Shared ρ} {h h' : Handling}

/-! ## Requests that are served -/

/-- The step counts a segment that was found. -/
def Handling.serves : Handling → ServerAct → Bool
  | .countRequest (.found _ _), .go _ => true
  | _, _ => false

theorem isGo_of_serves {a : ServerAct} (h : h.serves a = true) : a.isGo = true := by
  cases a with
  | go => rfl
  | take => simp [Handling.serves] at h

/-- The request of the thread has been counted. -/
def Handling.isOver : Handling → Bool
  | .finish _ _ => true
  | .idle _ => true
  | _ => false

theorem isOver_serverStep {a : ServerAct} (hover : h.isOver = true ∨ h.serves a = true)
    (ha : a.isGo = true) (hstep : serverStep D w M h a = some (M', h')) : h'.isOver = true := by
  rcases serverStep_cases hstep with ⟨last, request, rfl, -, -, -⟩ | ⟨env, rfl, heff⟩
  · cases ha
  cases heff with
  | finish => rfl
  | countRequest o =>
    cases o with
    | found => rfl
    | fault | health => rcases hover with hover | hover <;> cases hover
  | _ => rcases hover with hover | hover <;> cases hover

/-- Other steps count none. -/
theorem served_of_not_serves {a : ServerAct} (hserves : h.serves a = false)
    (hstep : serverStep D w M h a = some (M', h')) (r : ρ) :
    (M'.metrics r).httpRequests "/segment" "200" = (M.metrics r).httpRequests "/segment" "200" := by
  rcases serverStep_cases hstep with ⟨last, request, rfl, rfl, rfl, rfl⟩ | ⟨env, rfl, heff⟩
  · rfl
  cases heff with
  | countRequest o =>
    cases o with
    | found => cases hserves
    | fault id =>
      have hstatus : toString 500 ≠ "200" := by decide
      exact httpRequests_metric _ r fun hu => hstatus (MetricUpdate.httpRequestsInc.inj hu).2
    | health status =>
      have hroute : "/healthz" ≠ "/segment" := by decide
      exact httpRequests_metric _ r fun hu => hroute (MetricUpdate.httpRequestsInc.inj hu).1
  | returned id id' result =>
    unfold lookupUpdate
    split <;> exact httpRequests_metric _ r (by rintro ⟨⟩)
  | inflightInc | originFetch | observe | refusedLate | observeAgain | finish =>
    exact httpRequests_metric _ r (by rintro ⟨⟩)
  | observeExemplar => exact httpRequests_metric _ r (by rintro ⟨⟩)
  | chaosRead | call | cache | raised | refused | healthz | notFound | unprocessable | readChaos |
    beginUpdate | update | updated | copy | answer | flush => rfl

/-- The segments that all replicas have served. -/
def segmentsServed [Fintype ρ] (s : Server ω ρ) : ℕ :=
  ∑ r, (s.shared.metrics r).httpRequests "/segment" "200"

variable [DecidableEq ω]

theorem segmentsServed_step [Fintype ρ] {s s' : Server ω ρ} {a : ServerAct}
    (hstep : Pool.step (serverStep D) s (w, a) = some s') :
    segmentsServed s' ≤ segmentsServed s + if (s.thread w).serves a = true then 1 else 0 := by
  obtain ⟨M', h', he, rfl⟩ := Pool.step_eq_some.1 hstep
  split_ifs with hserves
  · -- one increment, on the replica of the thread
    have hle : ∀ r, (M'.metrics r).httpRequests "/segment" "200" ≤
        (s.shared.metrics r).httpRequests "/segment" "200" + if r = D.replica w then 1 else 0 := by
      intro r
      rcases metrics_serverStep he with hM | ⟨u, hM⟩ <;> rw [hM]
      · exact Nat.le_add_right _ _
      · by_cases hr : r = D.replica w
        · subst hr
          have hadd : ((u.apply (s.shared.metrics (D.replica w))).httpRequests "/segment" "200" : ℤ) =
              (s.shared.metrics (D.replica w)).httpRequests "/segment" "200" +
                statusWeight "/segment" "200" u :=
            additive_httpRequests "/segment" "200" u (s.shared.metrics (D.replica w))
          have hweight : statusWeight "/segment" "200" u ≤ 1 := by
            unfold statusWeight
            split <;> decide
          rw [Function.update_self, if_pos rfl]
          omega
        · rw [Function.update_of_ne hr]
          exact Nat.le_add_right _ _
    refine (Finset.sum_le_sum fun r _ => hle r).trans_eq ?_
    simp [segmentsServed, Finset.sum_add_distrib]
  · exact (Finset.sum_congr rfl fun r _ => served_of_not_serves (by simpa using hserves) he r).le

/-! ## One thread -/

section Threads

variable {K : Type*} [LinearOrder K] {X : Timed (Pool.step (serverStep D)) K}

/-- Event `m` is the last one before `n` with which the thread takes up a request. -/
structure TakenAt (X : Timed (Pool.step (serverStep D)) K) (w : ω) (m n : ℕ) : Prop where
  lt : m < n
  take : ∃ request, X.event m = (w, .take request)
  last : ∀ k, m < k → k < n → ∀ request, X.event k ≠ (w, .take request)

/-- Event `n` is a step of the thread that counts a segment. -/
def ServesAt (X : Timed (Pool.step (serverStep D)) K) (w : ω) (n : ℕ) : Prop :=
  (X.event n).1 = w ∧ ((X.state n).thread w).serves (X.event n).2 = true

/-- Between two segments that a thread serves, it takes up the second one. -/
theorem exists_take {l n : ℕ} (hl : ServesAt X w l) (hln : l < n) (hn : ServesAt X w n) :
    ∃ m, l < m ∧ TakenAt X w m n := by
  have key : ∀ n, l + 1 ≤ n →
      ((X.state n).thread w).isOver = true ∨ ∃ m, l < m ∧ TakenAt X w m n := by
    intro n hln
    induction n, hln using Nat.le_induction with
    | base =>
      obtain ⟨hw, hserves⟩ := hl
      have he := X.step_eq l
      rcases hevent : X.event l with ⟨v, a⟩
      rw [hevent] at hw hserves he
      subst hw
      obtain ⟨M', h', hstep, hnext⟩ := Pool.step_eq_some.1 he
      rw [hnext]
      exact Or.inl (by simpa using isOver_serverStep (Or.inr hserves) (isGo_of_serves hserves) hstep)
    | succ n hln ih =>
      have he := X.step_eq n
      rcases hevent : X.event n with ⟨v, a⟩
      rw [hevent] at he
      obtain ⟨M', h', hstep, hnext⟩ := Pool.step_eq_some.1 he
      -- a step that takes up no request of the thread
      have hlater : (∀ request, X.event n ≠ (w, .take request)) → ∀ m, l < m ∧ TakenAt X w m n →
          ∃ m, l < m ∧ TakenAt X w m (n + 1) := fun hno m ⟨hlm, hm⟩ =>
        ⟨m, hlm, hm.lt.trans (Nat.lt_succ_self n), hm.take, fun k hmk hkn => by
          rcases Nat.lt_succ_iff_lt_or_eq.1 hkn with hkn | rfl
          · exact hm.last k hmk hkn
          · exact hno⟩
      rcases eq_or_ne w v with rfl | hwv
      · cases a with
        | take request =>
          exact Or.inr ⟨n, hln, Nat.lt_succ_self n, ⟨request, hevent⟩, fun k hnk hkn => by omega⟩
        | go env =>
          refine ih.imp (fun hover => ?_) fun ⟨m, hm⟩ => hlater (by simp [hevent]) m hm
          rw [hnext]
          simpa using isOver_serverStep (Or.inl hover) rfl hstep
      · refine ih.imp (fun hover => ?_) fun ⟨m, hm⟩ => hlater ?_ m hm
        · rw [hnext]
          simpa [hwv] using hover
        · simp [hevent, hwv.symm]
  refine (key n hln).resolve_left fun hover => ?_
  have hserves := hn.2
  revert hover hserves
  cases (X.state n).thread w <;> cases (X.event n).2 <;> simp [Handling.isOver, Handling.serves]

end Threads

/-! ## All threads -/

section Capacity

variable {K : Type} [Field K] [LinearOrder K] [IsStrictOrderedRing K]
  {X : Timed (Pool.step (serverStep D)) K}

instance (X : Timed (Pool.step (serverStep D)) K) (w : ω) : DecidablePred (ServesAt X w) :=
  fun _ => inferInstanceAs (Decidable (_ ∧ _))

/-- From time `s` to time `t`, the requests are those of the threads `T`, and each segment that is
served has held its thread for at least `W` seconds. -/
structure Saturated (X : Timed (Pool.step (serverStep D)) K) (T : Finset ω) (W s t : K) : Prop where
  threads : ∀ n ∈ X.during s t, (X.event n).1 ∈ T
  held : ∀ w m, ∀ n ∈ X.during s t, TakenAt X w m n → ServesAt X w n → X.time m + W ≤ X.time n

variable {T : Finset ω} {W s t : K}

omit [Field K] [IsStrictOrderedRing K] in
/-- Each segment is served by some thread. -/
theorem segmentsServed_le [Fintype ρ] (X : Timed (Pool.step (serverStep D)) K) (hst : s ≤ t) :
    segmentsServed (X.stateAt t) ≤ segmentsServed (X.stateAt s) +
      ((X.during s t).filter fun n => ServesAt X (X.event n).1 n).card := by
  refine X.stateAt_le_add_card (fun n => ?_) hst
  have := segmentsServed_step (w := (X.event n).1) (a := (X.event n).2) (X.step_eq n)
  simpa [ServesAt] using this

/-- A thread serves at most one segment in `W` seconds, and one more. -/
theorem Saturated.card_le (h : Saturated X T W s t) (hst : s ≤ t) (hW : 0 ≤ W) (w : ω) :
    ((X.during s t).filter (ServesAt X w)).card * W ≤ t - s + W := by
  refine card_mul_le_of_apart X.time (by linarith) (fun n hn => ?_) fun l hl n hn hln => ?_
  · obtain ⟨hlow, hhigh⟩ := X.mem_during.1 (Finset.mem_filter.1 hn).1
    exact ⟨hlow.le, hhigh⟩
  · obtain ⟨-, hserves⟩ := Finset.mem_filter.1 hl
    obtain ⟨hmem, hserves'⟩ := Finset.mem_filter.1 hn
    obtain ⟨m, hlm, hm⟩ := exists_take hserves hln hserves'
    have := X.monotone_time hlm.le
    have := h.held w m n hmem hm hserves'
    linarith

/-- **The forecast bounds the service.** In every execution, while the threads of all replicas are
those of the measured inputs, and each segment that is served holds its thread for as long as a
fetch from the origin takes, the replicas serve no more than the forecast says that they can while
Redis is down, apart from the requests that were in progress. -/
theorem degraded_capacity [Fintype ρ] (m : Inputs K) {c : K} (hc : perReplicaDegraded m = .ok c)
    (hthreads : (T.card : K) = m.workersPerReplica * m.replicas) (hmiss : 0 < m.wMissS)
    (hbinds : m.workersPerReplica / m.wMissS ≤ m.cpuBoundRpsPerReplica)
    (h : Saturated X T m.wMissS s t) (hst : s ≤ t) :
    (segmentsServed (X.stateAt t) : K) - segmentsServed (X.stateAt s) ≤
      c * m.replicas * (t - s) + T.card := by
  have hserved := segmentsServed_le X hst
  -- the segments are served by the threads
  have hsum : ((X.during s t).filter fun n => ServesAt X (X.event n).1 n).card ≤
      ∑ w ∈ T, ((X.during s t).filter (ServesAt X w)).card := by
    rw [Finset.card_eq_sum_card_fiberwise (f := fun n => (X.event n).1) (t := T) fun n hn =>
      h.threads n (Finset.mem_filter.1 hn).1]
    refine Finset.sum_le_sum fun w _ => Finset.card_le_card fun n hn => ?_
    obtain ⟨hfilter, rfl⟩ := Finset.mem_filter.1 hn
    obtain ⟨hmem, hserves⟩ := Finset.mem_filter.1 hfilter
    exact Finset.mem_filter.2 ⟨hmem, hserves⟩
  have htotal : (∑ w ∈ T, (((X.during s t).filter (ServesAt X w)).card : K)) * m.wMissS ≤
      T.card * (t - s + m.wMissS) := by
    rw [Finset.sum_mul, ← nsmul_eq_mul]
    exact Finset.sum_le_card_nsmul T _ _ fun w _ => h.card_le hst hmiss.le w
  have hcapacity : c * m.replicas = T.card / m.wMissS := by
    rw [perReplicaDegraded, perReplica_of_ne m hmiss.ne'] at hc
    obtain rfl := Except.ok.inj hc
    rw [Inputs.capacity, min_eq_left hbinds, hthreads]
    ring
  have hserved' : (segmentsServed (X.stateAt t) : K) - segmentsServed (X.stateAt s) ≤
      ∑ w ∈ T, (((X.during s t).filter (ServesAt X w)).card : K) := by
    rw [sub_le_iff_le_add']
    exact_mod_cast hserved.trans (Nat.add_le_add_left hsum _)
  calc (segmentsServed (X.stateAt t) : K) - segmentsServed (X.stateAt s)
      ≤ ∑ w ∈ T, (((X.during s t).filter (ServesAt X w)).card : K) := hserved'
    _ ≤ T.card * (t - s + m.wMissS) / m.wMissS := (le_div_iff₀ hmiss).2 htotal
    _ = c * m.replicas * (t - s) + T.card := by
      rw [hcapacity]
      field_simp

end Capacity

/-! ## One thread -/

/-- One replica with one thread, which needs ten seconds for a segment. -/
def oneThread : Inputs ℚ :=
  { measuredInputs with workersPerReplica := 1, replicas := 1, wMissS := 10 }

/-- Every eleven seconds, a request begins; it is finished after ten. -/
def holdTime (k : ℕ) : ℚ := (11 * (k / 2) + k % 2 : ℕ) - 1

theorem strictMono_holdTime : StrictMono holdTime := strictMono_nat_of_lt_succ fun k => by
  have hlt : 11 * (k / 2) + k % 2 < 11 * ((k + 1) / 2) + (k + 1) % 2 := by omega
  exact sub_lt_sub_right (by exact_mod_cast hlt) 1

theorem unbounded_holdTime (t : ℚ) : ∃ k, t < holdTime k := by
  obtain ⟨n, hn⟩ := exists_nat_gt t
  refine ⟨2 * n + 2, hn.trans_le ?_⟩
  have hle : n + 1 ≤ 11 * ((2 * n + 2) / 2) + (2 * n + 2) % 2 := by omega
  have hcast : ((n + 1 : ℕ) : ℚ) ≤ (11 * ((2 * n + 2) / 2) + (2 * n + 2) % 2 : ℕ) := by exact_mod_cast hle
  push_cast at hcast
  simp only [holdTime]
  push_cast
  linarith

/-- Redis is down. -/
def holdEnv (k : ℕ) : Env := { calm with now := holdTime k, reply := .raises false }

theorem holdTime_add_ten (i : ℕ) : holdTime (2 * i + 2) = holdTime (2 * i + 1) + 10 := by
  have hbegun : 11 * ((2 * i + 1) / 2) + (2 * i + 1) % 2 = 11 * i + 1 := by omega
  have hended : 11 * ((2 * i + 2) / 2) + (2 * i + 2) % 2 = 11 * i + 11 := by omega
  simp only [holdTime, hbegun, hended]
  push_cast
  ring

section Held

variable {Y : Timed (run (Pool.step (serverStep solo))) ℚ} {X : Timed (Pool.step (serverStep solo)) ℚ}
  (hY : Drill solo () "ab" {} (soloHandle .healthz 3) holdEnv 0 (· = .segment "ab") Y)
  (hX : X.Flattens Y) (htime : Y.time = holdTime)

include hY hX htime

/-- After `k` requests, `k` segments have been served. -/
theorem segmentsServed_held (k : ℕ) : segmentsServed (X.stateAt (holdTime (2 * k))) = k := by
  have hcount : Y.count (holdTime (2 * k)) = 2 * k + 1 := by
    have hstrict : StrictMono Y.time := htime ▸ strictMono_holdTime
    have := Y.count_time hstrict (2 * k)
    rwa [htime] at this
  have hserved : segmentsServed (X.stateAt (holdTime (2 * k))) +
      ((X.stateAt (holdTime (2 * k))).thread ()).uncounted = Y.count (holdTime (2 * k)) / 2 := by
    rw [← hY.counted hX, ← ((hY.counters hX acceptsExemplars_solo _).2.2 (by decide +kernel)).1]
    simp [segmentsServed, solo]
  have hstate : X.stateAt (holdTime (2 * k)) = Y.state (2 * k + 1) := by
    rw [hX.stateAt, Timed.stateAt, hcount]
  obtain ⟨last, hlast⟩ := hY.idle k
  rw [hcount, hstate, hlast] at hserved
  simp only [Handling.uncounted] at hserved
  rw [hstate]
  omega

/-- A segment is served in the second half of a request, ten seconds after it was taken up. -/
theorem saturated_held (t : ℚ) : Saturated X {()} 10 (-1) t where
  threads := fun _ _ => Finset.mem_singleton_self _
  held := fun w m n hn hm hserves => by
    obtain ⟨hlow, -⟩ := X.mem_during.1 hn
    obtain ⟨request, htake⟩ := hm.take
    obtain ⟨k, pre, post, hk, -, hnk, -⟩ := hX.blocks n
    obtain ⟨b, pre', post', hb, -, hmb, -⟩ := hX.blocks m
    have hle : b ≤ k := by
      have := X.monotone_time hm.lt.le
      rw [hmb, hnk, htime] at this
      exact strictMono_holdTime.le_iff_le.1 this
    have hmem : X.event n ∈ Y.event k := by simp [hk]
    have hmem' : X.event m ∈ Y.event b := by simp [hb]
    cases k with
    | zero =>
      rw [hnk, htime] at hlow
      norm_num [holdTime] at hlow
    | succ k =>
      obtain ⟨i, rfl | rfl⟩ := Nat.even_or_odd' k
      · -- the first half is the event that takes the request up
        rw [hY.begins] at hmem
        have hgo := isGo_of_serves hserves.2
        rw [List.mem_singleton.1 hmem] at hgo
        cases hgo
      · obtain ⟨j, hj⟩ := hY.finishes i
        have hne : b ≠ 2 * i + 2 := by
          rintro rfl
          rw [hj, htake] at hmem'
          cases (Prod.mk.inj (List.eq_of_mem_replicate hmem')).2
        have hbi : holdTime b ≤ holdTime (2 * i + 1) := strictMono_holdTime.monotone (by omega)
        rw [hmb, hnk, htime]
        calc holdTime b + 10 ≤ holdTime (2 * i + 1) + 10 := add_le_add_left hbi 10
          _ = holdTime (2 * i + 2) := (holdTime_add_ten i).symm

end Held

/-- A drill of `solo` in which each segment holds its thread for ten seconds. -/
theorem exists_saturated : ∃ X : Timed (Pool.step (serverStep solo)) ℚ,
    X.state 0 = boot solo (fun _ => 0) ∧ Saturated X {()} 10 (-1) 21 ∧
      segmentsServed (X.stateAt (-1)) = 0 ∧ segmentsServed (X.stateAt 21) = 2 := by
  obtain ⟨Y, X, h, hX, htime⟩ := exists_drill_of_setsUp holdEnv setsUp_solo (List.cons_ne_nil _ _)
    smooth_solo strictMono_holdTime.monotone (by norm_num [holdEnv, holdTime]) (Leads.refl _)
    (by rintro _ rfl; simp [Handling.rank]) strictMono_holdTime.monotone unbounded_holdTime
  have hstart := segmentsServed_held h hX htime 0
  have hend := segmentsServed_held h hX htime 2
  norm_num [holdTime] at hstart hend
  exact ⟨X, h.state_zero hX, saturated_held h hX htime 21, hstart, hend⟩

/-- The thread has taken up a segment, held it for ten seconds and served it, twice; the forecast
lets it serve no more than 3.2. -/
theorem degraded_capacity_solo : ∃ X : Timed (Pool.step (serverStep solo)) ℚ,
    X.state 0 = boot solo (fun _ => 0) ∧ segmentsServed (X.stateAt (-1)) = 0 ∧
      segmentsServed (X.stateAt 21) = 2 ∧
      (∃ l m n, ServesAt X () l ∧ l < m ∧ TakenAt X () m n ∧ ServesAt X () n ∧ X.time m + 10 ≤ X.time n) ∧
      (segmentsServed (X.stateAt 21) : ℚ) - segmentsServed (X.stateAt (-1)) ≤ 16 / 5 := by
  obtain ⟨X, hboot, hsaturated, hzero, htwo⟩ := exists_saturated
  have hst : (-1 : ℚ) ≤ 21 := by norm_num
  refine ⟨X, hboot, hzero, htwo, ?_, ?_⟩
  · have hle := segmentsServed_le X hst
    rw [hzero, htwo, zero_add] at hle
    obtain ⟨a, ha, b, hb, hab⟩ := Finset.one_lt_card.1 hle
    have key : ∀ l n, l < n → ServesAt X () l → n ∈ X.during (-1) 21 → ServesAt X () n →
        ∃ l m n, ServesAt X () l ∧ l < m ∧ TakenAt X () m n ∧ ServesAt X () n ∧
          X.time m + 10 ≤ X.time n := fun l n hln hl hmem hn => by
      obtain ⟨m, hlm, hm⟩ := exists_take hl hln hn
      exact ⟨l, m, n, hl, hlm, hm, hn, hsaturated.held () m n hmem hm hn⟩
    obtain ⟨hamem, haserves⟩ := Finset.mem_filter.1 ha
    obtain ⟨hbmem, hbserves⟩ := Finset.mem_filter.1 hb
    rcases lt_or_gt_of_ne hab with hlt | hlt
    · exact key a b hlt haserves hbmem hbserves
    · exact key b a hlt hbserves hamem haserves
  · have hc : perReplicaDegraded oneThread = .ok (1 / 10) := by decide +kernel
    have hle := degraded_capacity oneThread hc (T := {()}) (by norm_num [oneThread])
      (by norm_num [oneThread]) (by norm_num [oneThread, measuredInputs]) hsaturated hst
    refine hle.trans_eq ?_
    norm_num [oneThread]

end EdgeCache.Service
