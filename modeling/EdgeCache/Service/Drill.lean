import EdgeCache.Foundations.Blocks
import EdgeCache.Service.Progress
import EdgeCache.Service.Traffic

/-!
# Drills

What is promised of the alerts is tried out on executions that begin with the boot. In a drill, one
thread is asked for one segment, again and again, while nobody changes the chaos state (`Serving`).
It counts each request (`Serving.go`) and is always done with it after some steps
(`Drilling.exists_finish`). So there are such executions at any pace, and with any environment: each
request is begun at one time and finished at the next (`exists_drill`), and the number of requests
that have been counted follows from the time (`Drill.counted`).
-/

namespace EdgeCache.Service

open Cache Transition

/-! ## One request -/

/-- The thread is idle, or in a request for segment `id`. -/
def Handling.Works (id : String) : Handling → Prop
  | .idle _ => True
  | .segment id' => id' = id
  | .chaos id' _ => id' = id
  | .cache id' _ => id' = id
  | .originFetch _ _ => True
  | .observe o => o.route = "/segment"
  | .observeAgain o _ => o.route = "/segment"
  | .countRequest o => o.route = "/segment"
  | .finish _ _ => True
  | _ => False

/-- The requests that the thread has yet to count. -/
def Handling.uncounted : Handling → ℕ
  | .idle _ => 0
  | .finish _ _ => 0
  | _ => 1

/-- A fault has been injected into the request, or may be by the next step. -/
def Handling.mayFail : Handling → Bool
  | .chaos _ .rateDraw => true
  | .observe (.fault _) => true
  | .observeAgain (.fault _) _ => true
  | .countRequest (.fault _) => true
  | _ => false

variable {ω ρ : Type*}

/-- A thread of replica `r` with chaos state `st` is asked for segment `id` only; it has been asked
`n` times, and has counted all requests but the one that it is in. -/
structure Serving (r : ρ) (id : String) (st : ChaosState) (n : ℕ) (M : Shared ρ) (h : Handling) :
    Prop where
  chaos : (M.chaos r).state = st
  works : h.Works id
  counted : (M.metrics r).httpRequestsOf "/segment" + h.uncounted = n
  faults : PyFloat.le st.errorRate (.fin 0) = true →
    (M.metrics r).httpRequests "/segment" "500" = 0 ∧ h.mayFail = false

section Step

variable {r : ρ} {id : String} {st : ChaosState} {n : ℕ} {M M' : Shared ρ} {h h' : Handling}

/-- A step that counts no request. -/
theorem Serving.next (hs : Serving r id st n M h) (hchaos : M'.chaos r = M.chaos r)
    (hcount : (M'.metrics r).httpRequestsTotal = (M.metrics r).httpRequestsTotal) (hworks : h'.Works id)
    (huncounted : h'.uncounted = h.uncounted)
    (hfail : PyFloat.le st.errorRate (.fin 0) = true → h.mayFail = false → h'.mayFail = false) :
    Serving r id st n M' h' where
  chaos := hchaos ▸ hs.chaos
  works := hworks
  counted := by
    rw [huncounted, Metrics.httpRequestsOf, hcount]
    exact hs.counted
  faults := fun hrate => by
    obtain ⟨hnone, hno⟩ := hs.faults hrate
    rw [Metrics.httpRequests, hcount]
    exact ⟨hnone, hfail hrate hno⟩

variable [DecidableEq ρ]

theorem Serving.metric (hs : Serving r id st n M h) (u : MetricUpdate)
    (hcount : ∀ m, (u.apply m).httpRequestsTotal = m.httpRequestsTotal) (hworks : h'.Works id)
    (huncounted : h'.uncounted = h.uncounted)
    (hfail : PyFloat.le st.errorRate (.fin 0) = true → h.mayFail = false → h'.mayFail = false) :
    Serving r id st n (M.metric r u) h' :=
  hs.next rfl (by rw [Shared.metrics_metric, Function.update_self, hcount]) hworks huncounted hfail

variable {D : Rollout ω ρ} {w : ω}

/-- **Each request is counted once**, if it is answered. -/
theorem Serving.go {env : Env} (hs : Serving (D.replica w) id st n M h)
    (hraise : ∀ id' e, h ≠ .cache id (.resting (some (id', .error e))))
    (hsleep : PyFloat.timeSleep D.sleepLimit st.latencySeconds = .ok ())
    (heff : ServerEffect D w env M h M' h') : Serving (D.replica w) id st n M' h' := by
  have hworks := hs.works
  cases heff with
  | inflightInc => exact hs.metric _ (fun _ => rfl) hworks rfl fun _ _ => rfl
  | chaosRead id' read hne =>
    rw [hs.chaos]
    cases read with
    | latencyTest =>
      refine hs.next rfl rfl hworks rfl fun _ _ => ?_
      simp only [afterChaosRead]
      split <;> rfl
    | latencySleep =>
      rw [afterChaosRead, hsleep]
      exact hs.next rfl rfl hworks rfl fun _ _ => rfl
    | rateTest =>
      refine hs.next rfl rfl hworks rfl fun hrate _ => ?_
      rw [afterChaosRead, if_pos hrate]
      rfl
    | rateDraw =>
      have hdraw : ∀ h', h'.Works id → h'.uncounted = 1 → Serving (D.replica w) id st n M h' :=
        fun h' hworks' hcount => hs.next rfl rfl hworks' hcount fun _ hno => by cases hno
      simp only [afterChaosRead]
      split
      · exact hdraw _ rfl rfl
      · exact hdraw _ hworks rfl
    | bypass => exact absurd rfl hne
  | call => exact hs.next rfl rfl hworks rfl fun _ _ => rfl
  | cache => exact hs.next rfl rfl hworks rfl fun _ _ => rfl
  | raised id' id'' e =>
    obtain rfl : id' = id := hworks
    exact absurd rfl (hraise id'' e)
  | returned id' id'' result =>
    refine hs.metric _ (fun _ => ?_) ?_ ?_ fun _ _ => ?_
    · unfold lookupUpdate
      split <;> rfl
    all_goals
      unfold afterLookup
      split <;> first | rfl | trivial
  | originFetch => exact hs.metric _ (fun _ => rfl) rfl rfl fun _ _ => rfl
  | observe o | refusedLate o | observeAgain o =>
    exact hs.metric _ (fun _ => rfl) hworks rfl fun _ hno => by cases o <;> first | rfl | cases hno
  | observeExemplar o =>
    have hobserved : Serving (D.replica w) id st n
        (M.metric (D.replica w) (.requestLatencyObserve o.route env.elapsed)) (.countRequest o) :=
      hs.metric _ (fun _ => rfl) hworks rfl fun _ hno => by cases o <;> first | rfl | cases hno
    exact hobserved.next rfl rfl hworks rfl fun _ hno => hno
  | refused o => exact hs.next rfl rfl hworks rfl fun _ hno => by cases o <;> first | rfl | cases hno
  | countRequest o =>
    have hcounted := hs.counted
    have hmetrics : ((M.metric (D.replica w) (.httpRequestsInc o.route (toString o.status))).metrics
        (D.replica w)).httpRequestsTotal =
          (o.route, toString o.status) :: (M.metrics (D.replica w)).httpRequestsTotal := by
      rw [Shared.metrics_metric, Function.update_self]
      rfl
    have hroute : o.route = "/segment" := hworks
    have hafter : o.after.Works id ∧ o.after.uncounted = 0 ∧ o.after.mayFail = false := by
      cases o with
      | fault | found => exact ⟨trivial, rfl, rfl⟩
      | health => exact absurd hroute (show "/healthz" ≠ "/segment" by decide)
    refine ⟨hs.chaos, hafter.1, ?_, fun hrate => ⟨?_, hafter.2.2⟩⟩
    · rw [hafter.2.1, Metrics.httpRequestsOf, hmetrics]
      simpa [hroute, Metrics.httpRequestsOf, Handling.uncounted] using hcounted
    · obtain ⟨hnone, hno⟩ := hs.faults hrate
      have hstatus : toString 200 ≠ "500" := by decide
      have hne : (o.route, toString o.status) ≠ ("/segment", "500") := by
        cases o with
        | fault => cases hno
        | found | health => exact fun heq => hstatus (Prod.mk.inj heq).2
      rw [Metrics.httpRequests, hmetrics, List.count_cons_of_ne hne]
      exact hnone
  | finish => exact hs.metric _ (fun _ => rfl) trivial rfl fun _ _ => rfl
  | healthz | notFound | unprocessable | readChaos | beginUpdate | update | updated | copy | answer |
    flush => exact hworks.elim

theorem clock_serverEffect {env : Env} (hclock : (M.world.proc (D.replica w)).clock ≤ env.now)
    (heff : ServerEffect D w env M h M' h') : (M'.world.proc (D.replica w)).clock ≤ env.now := by
  have htick : ∀ W : World ρ, ((W.tick (D.replica w) env.now).proc (D.replica w)).clock ≤ env.now :=
    fun W => by simp [World.tick]
  cases heff with
  | call id W t hW =>
    obtain ⟨-, -, rfl, -⟩ := fleetStep_getSegment.1 hW
    exact htick _
  | cache id t t' W hW =>
    obtain ⟨-, W₁, -, rfl⟩ := fleetStep_go.1 hW
    exact htick _
  | flush body state W t _ hW =>
    obtain ⟨-, -, rfl, -⟩ := fleetStep_flush.1 hW
    exact htick _
  | inflightInc | chaosRead | raised | returned | originFetch | observe | observeExemplar | refused |
    refusedLate | observeAgain | countRequest | finish | healthz | notFound | unprocessable | readChaos |
    beginUpdate | update | updated | copy | answer => exact hclock

end Step

/-! ## A run of requests -/

variable [DecidableEq ω] [DecidableEq ρ] {D : Rollout ω ρ} {w : ω} {id : String} {st : ChaosState}

/-- The service, of which thread `w` has been asked for segment `id` for `n` times. -/
structure Drilling (D : Rollout ω ρ) (w : ω) (id : String) (st : ChaosState) (n : ℕ) (now : ℚ)
    (s : Server ω ρ) : Prop where
  reachable : ∃ t, Reachable (Pool.step (serverStep D)) (boot D t) s
  clock : (s.shared.world.proc (D.replica w)).clock ≤ now
  serving : Serving (D.replica w) id st n s.shared (s.thread w)

namespace Drilling

variable {n : ℕ} {now : ℚ} {s s' : Server ω ρ}

theorem mono (h : Drilling D w id st n now s) {later : ℚ} (hle : now ≤ later) :
    Drilling D w id st n later s :=
  ⟨h.reachable, h.clock.trans hle, h.serving⟩

theorem take (h : Drilling D w id st n now s)
    (hstep : Pool.step (serverStep D) s (w, .take (.segment id)) = some s') :
    Drilling D w id st (n + 1) now s' ∧ s'.thread w = .segment id := by
  obtain ⟨t, ht⟩ := h.reachable
  have hs' := ht.concat hstep
  have hthread := thread_of_take hstep
  obtain ⟨M', h', he, rfl⟩ := Pool.step_eq_some.1 hstep
  rcases serverStep_cases he with ⟨last, request, -, hidle, rfl, rfl⟩ | ⟨env, heq, -⟩
  · have hserving := h.serving
    rw [hidle] at hserving
    refine ⟨⟨⟨t, hs'⟩, h.clock, ?_⟩, hthread⟩
    rw [hthread]
    exact ⟨hserving.chaos, rfl, congrArg (· + 1) hserving.counted, hserving.faults⟩
  · cases heq

/-- The exceptions of `get_segment` and of the injected latency are excluded. -/
structure Smooth (D : Rollout ω ρ) (w : ω) (id : String) (st : ChaosState) : Prop where
  raises : ∀ e, ¬ D.Raises (D.replica w) id e
  sleep : PyFloat.timeSleep D.sleepLimit st.latencySeconds = .ok ()

theorem go (hD : Smooth D w id st) {env : Env} (h : Drilling D w id st n env.now s)
    (hstep : Pool.step (serverStep D) s (w, .go env) = some s') : Drilling D w id st n env.now s' := by
  obtain ⟨t, ht⟩ := h.reachable
  have hs' := ht.concat hstep
  have hraise : ∀ id' e, s.thread w ≠ .cache id (.resting (some (id', .error e))) := by
    intro id' e hw
    obtain ⟨q, hq, -, hruns⟩ := refines_fleet ht
    have hserves := hruns w
    rw [hw] at hserves
    obtain ⟨hlast, result, hsome⟩ := hserves
    obtain ⟨rfl, -⟩ := Prod.mk.inj (Option.some.inj hsome)
    obtain ⟨bypass, cached, elapsed, hout⟩ := outcome_run hq hlast
    exact hD.raises e (raises_of_outcome hout.symm)
  obtain ⟨M', h', he, rfl⟩ := Pool.step_eq_some.1 hstep
  rcases serverStep_cases he with ⟨last, request, heq, -⟩ | ⟨env', heq, heff⟩
  · cases heq
  · obtain rfl := ServerAct.go.inj heq
    refine ⟨⟨t, hs'⟩, clock_serverEffect h.clock heff, ?_⟩
    simpa using h.serving.go hraise hD.sleep heff

/-- Some steps of the thread. -/
theorem run_go (hD : Smooth D w id st) {env : Env} {es : List (ω × ServerAct)}
    (hes : ∀ e ∈ es, e = (w, .go env)) (h : Drilling D w id st n env.now s)
    (hrun : run (Pool.step (serverStep D)) s es = some s') : Drilling D w id st n env.now s' := by
  induction es generalizing s with
  | nil => exact Option.some.inj hrun ▸ h
  | cons e es ih =>
    obtain rfl := hes _ List.mem_cons_self
    obtain ⟨s₁, hstep, hrest⟩ := (run_cons_eq_some _).1 hrun
    exact ih (fun e he => hes e (List.mem_cons_of_mem _ he)) (h.go hD hstep) hrest

/-- Some steps of the thread, with which it may also be asked again. -/
theorem run_events (hD : Smooth D w id st) {env : Env} {es : List (ω × ServerAct)}
    (hes : ∀ e ∈ es, e = (w, .take (.segment id)) ∨ e = (w, .go env)) (h : Drilling D w id st n env.now s)
    (hrun : run (Pool.step (serverStep D)) s es = some s') :
    ∃ m, Drilling D w id st m env.now s' := by
  induction es generalizing s n with
  | nil => exact ⟨n, Option.some.inj hrun ▸ h⟩
  | cons e es ih =>
    obtain ⟨s₁, hstep, hrest⟩ := (run_cons_eq_some _).1 hrun
    have hes' := fun e he => hes e (List.mem_cons_of_mem _ he)
    rcases hes e List.mem_cons_self with rfl | rfl
    · exact ih hes' (h.take hstep).1 hrest
    · exact ih hes' (h.go hD hstep) hrest

/-- **A request that has begun can be finished**, in any environment. -/
theorem exists_finish (hD : Smooth D w id st) {env : Env} (h : Drilling D w id st n env.now s)
    (hpos : 0 < (s.thread w).rank) : ∃ m s',
      run (Pool.step (serverStep D)) s (List.replicate (m + 1) (w, .go env)) = some s' ∧
        Drilling D w id st n env.now s' ∧ ∃ last, s'.thread w = .idle last := by
  induction hrank : (s.thread w).rank using Nat.strong_induction_on generalizing s with
  | _ k ih =>
    subst hrank
    obtain ⟨t, ht⟩ := h.reachable
    have hbusy : ∀ last, s.thread w ≠ .idle last := fun last hw => by
      rw [hw] at hpos
      exact absurd hpos (lt_irrefl 0)
    obtain ⟨s₁, hstep⟩ := (request_answered ht w).1 hbusy env h.clock
    have h₁ := h.go hD hstep
    obtain ⟨M', h', he, rfl⟩ := Pool.step_eq_some.1 hstep
    have hlt : h'.rank < (s.thread w).rank := rank_go rfl he
    rcases Nat.eq_zero_or_pos h'.rank with hzero | hpos'
    · obtain ⟨last, rfl⟩ := eq_idle_of_rank hzero
      exact ⟨0, _, (run_cons_eq_some _).2 ⟨_, hstep, rfl⟩, h₁, last, by simp⟩
    · obtain ⟨m, s', hrun, hfinish⟩ := ih h'.rank hlt h₁ (by simpa using hpos') (by simp)
      refine ⟨m + 1, s', ?_, hfinish⟩
      rw [List.replicate_succ]
      exact (run_cons_eq_some _).2 ⟨_, hstep, hrun⟩

end Drilling

/-! ## Drills -/

/-- From where `p` holds, `j` steps of the thread lead to where `q` holds. -/
def Leads (D : Rollout ω ρ) (w : ω) (id : String) (st : ChaosState) (p : Handling → Prop) (j : ℕ)
    (q : Handling → Prop) : Prop :=
  ∀ n (env : Env) (s : Server ω ρ), Drilling D w id st n env.now s → p (s.thread w) →
    ∃ s', run (Pool.step (serverStep D)) s (List.replicate j (w, .go env)) = some s' ∧ q (s'.thread w)

theorem Leads.refl (p : Handling → Prop) : Leads D w id st p 0 p := fun _ _ s _ hp => ⟨s, rfl, hp⟩

/-- One step. -/
theorem Leads.one {p q : Handling → Prop} (hp : ∀ h, p h → 0 < h.rank)
    (hq : ∀ {env : Env} {M M' : Shared ρ} {h h' : Handling}, (M.chaos (D.replica w)).state = st → p h →
      ServerEffect D w env M h M' h' → q h') : Leads D w id st p 1 q := by
  intro n env s hs hw
  obtain ⟨t, ht⟩ := hs.reachable
  have hbusy : ∀ last, s.thread w ≠ .idle last := fun last hidle => by
    have hpos := hp _ hw
    rw [hidle] at hpos
    exact absurd hpos (lt_irrefl 0)
  obtain ⟨s', hstep⟩ := (request_answered ht w).1 hbusy env hs.clock
  refine ⟨s', (run_cons_eq_some _).2 ⟨s', hstep, rfl⟩, ?_⟩
  obtain ⟨M', h', he, rfl⟩ := Pool.step_eq_some.1 hstep
  simpa using hq hs.serving.chaos hw (goStep_effect he)

theorem Leads.trans (hD : Drilling.Smooth D w id st) {p q r : Handling → Prop} {i j : ℕ}
    (hpq : Leads D w id st p i q) (hqr : Leads D w id st q j r) : Leads D w id st p (i + j) r := by
  intro n env s hs hw
  obtain ⟨s₁, hrun₁, hw₁⟩ := hpq n env s hs hw
  have hs₁ := hs.run_go hD (fun e he => List.eq_of_mem_replicate he) hrun₁
  obtain ⟨s₂, hrun₂, hw₂⟩ := hqr n env s₁ hs₁ hw₁
  refine ⟨s₂, ?_, hw₂⟩
  rw [List.replicate_add]
  exact (run_append_eq_some _).2 ⟨s₁, hrun₁, hrun₂⟩

/-- Thread `w` makes the events `setup`, and is then asked for segment `id` at each odd block. It
makes `j` more steps, which bring it to where `mid` holds, and finishes the request at the block
after that. -/
structure Drill (D : Rollout ω ρ) (w : ω) (id : String) (st : ChaosState) (setup : List (ω × ServerAct))
    (env : ℕ → Env) (j : ℕ) (mid : Handling → Prop) (Y : Timed (run (Pool.step (serverStep D))) ℚ) :
    Prop where
  boot : Y.state 0 = boot D fun _ => 0
  setup : Y.event 0 = setup
  drilling : ∀ k, Drilling D w id st ((k + 1) / 2) (env (k + 1)).now (Y.state (k + 1))
  idle : ∀ k, ∃ last, (Y.state (2 * k + 1)).thread w = .idle last
  begins : ∀ k, Y.event (2 * k + 1) =
    (w, .take (.segment id)) :: List.replicate j (w, .go (env (2 * k + 1)))
  mid : ∀ k, mid ((Y.state (2 * k + 2)).thread w)
  finishes : ∀ k, ∃ m, Y.event (2 * k + 2) = List.replicate m (w, .go (env (2 * k + 2)))

/-- What holds before the block after the first `k + 1` ones. -/
structure BeforeBlock (D : Rollout ω ρ) (w : ω) (id : String) (st : ChaosState) (env : ℕ → Env)
    (mid : Handling → Prop) (k : ℕ) (s : Server ω ρ) : Prop where
  drilling : Drilling D w id st ((k + 1) / 2) (env (k + 1)).now s
  idle : k % 2 = 0 → ∃ last, s.thread w = .idle last
  mid : k % 2 = 1 → mid (s.thread w)

/-- The events of that block. -/
structure IsBlock (w : ω) (id : String) (env : ℕ → Env) (j k : ℕ) (es : List (ω × ServerAct)) :
    Prop where
  begins : k % 2 = 0 → es = (w, .take (.segment id)) :: List.replicate j (w, .go (env (k + 1)))
  finishes : k % 2 = 1 → ∃ m, es = List.replicate (m + 1) (w, .go (env (k + 1)))

section Blocks

variable {env : ℕ → Env} {j k : ℕ} {mid : Handling → Prop} {es : List (ω × ServerAct)}
  {s : Server ω ρ}

omit [DecidableEq ω] in
theorem IsBlock.ne_nil (h : IsBlock w id env j k es) : es ≠ [] := by
  rcases Nat.mod_two_eq_zero_or_one k with hk | hk
  · rw [h.begins hk]
    exact List.cons_ne_nil _ _
  · obtain ⟨m, hm⟩ := h.finishes hk
    rw [hm]
    exact List.cons_ne_nil _ _

/-- One block follows the other. -/
theorem BeforeBlock.exists_block (hD : Drilling.Smooth D w id st) (henv : Monotone fun k => (env k).now)
    (hmid : Leads D w id st (· = .segment id) j mid) (hpos : ∀ h, mid h → 0 < h.rank)
    (h : BeforeBlock D w id st env mid k s) : ∃ es s', IsBlock w id env j k es ∧
      run (Pool.step (serverStep D)) s es = some s' ∧ BeforeBlock D w id st env mid (k + 1) s' := by
  have hlater : (env (k + 1)).now ≤ (env (k + 2)).now := henv (Nat.le_succ _)
  rcases Nat.mod_two_eq_zero_or_one k with hk | hk
  · obtain ⟨last, hlast⟩ := h.idle hk
    have htake : Pool.step (serverStep D) s (w, .take (.segment id)) =
        some ⟨s.shared, Function.update s.thread w (.segment id)⟩ :=
      Pool.step_eq_some.2 ⟨_, _, by rw [hlast]; rfl, rfl⟩
    obtain ⟨hdrill, hthread⟩ := h.drilling.take htake
    obtain ⟨s', hrun, hmid'⟩ := hmid _ _ _ hdrill hthread
    have hdrill' := hdrill.run_go hD (fun e he => List.eq_of_mem_replicate he) hrun
    have hn : (k + 1) / 2 + 1 = (k + 1 + 1) / 2 := by omega
    exact ⟨_, s', ⟨fun _ => rfl, fun _ => by omega⟩, (run_cons_eq_some _).2 ⟨_, htake, hrun⟩,
      hn ▸ hdrill'.mono hlater, fun _ => by omega, fun _ => hmid'⟩
  · obtain ⟨m, s', hrun, hdrill', hlast⟩ := h.drilling.exists_finish hD (hpos _ (h.mid hk))
    have hn : (k + 1) / 2 = (k + 1 + 1) / 2 := by omega
    exact ⟨_, s', ⟨fun _ => by omega, fun _ => ⟨m, rfl⟩⟩, hrun, hn ▸ hdrill'.mono hlater,
      fun _ => hlast, fun _ => by omega⟩

end Blocks

/-- **There are drills**, at any pace and in any environment. -/
theorem exists_drill {setup : List (ω × ServerAct)} {env : ℕ → Env} {j : ℕ} {mid : Handling → Prop}
    {s : Server ω ρ} (hD : Drilling.Smooth D w id st)
    (hsetup : run (Pool.step (serverStep D)) (boot D fun _ => 0) setup = some s) (hne : setup ≠ [])
    (hs : Serving (D.replica w) id st 0 s.shared (s.thread w)) (hrank : (s.thread w).rank = 0)
    (hclock : (s.shared.world.proc (D.replica w)).clock ≤ (env 1).now)
    (henv : Monotone fun k => (env k).now) (hmid : Leads D w id st (· = .segment id) j mid)
    (hpos : ∀ h, mid h → 0 < h.rank) {time : ℕ → ℚ} (hmono : Monotone time)
    (hunbounded : ∀ t, ∃ k, t < time k) :
    ∃ (Y : Timed (run (Pool.step (serverStep D))) ℚ) (X : Timed (Pool.step (serverStep D)) ℚ),
      Drill D w id st setup env j mid Y ∧ X.Flattens Y ∧ Y.time = time := by
  have hstart : BeforeBlock D w id st env mid 0 s :=
    ⟨⟨⟨_, setup, hsetup⟩, hclock, hs⟩, fun _ => eq_idle_of_rank hrank, fun _ => by omega⟩
  have hmono' : Monotone fun k => time (k + 1) := fun k l hkl => hmono (Nat.succ_le_succ hkl)
  have hunbounded' : ∀ u, ∃ k, u < time (k + 1) := fun u => by
    obtain ⟨k, hk⟩ := hunbounded u
    exact ⟨k, hk.trans_le (hmono (Nat.le_succ k))⟩
  obtain ⟨Y, rfl, htime, hY⟩ := Timed.exists_of_step
    (fun _ _ h => h.exists_block hD henv hmid hpos) hmono' hunbounded' hstart
  have hbefore : time 0 ≤ Y.time 0 := by
    rw [htime]
    exact hmono zero_le_one
  have hblocks : ∀ k, (Y.cons _ setup (time 0) hsetup hbefore).event k ≠ [] := fun k => by
    cases k with
    | zero => exact hne
    | succ k => exact (hY k).2.ne_nil
  obtain ⟨X, hX⟩ := Timed.exists_flatten _ hblocks
  refine ⟨_, X, ⟨rfl, rfl, fun k => (hY k).1.drilling, fun k => ?_, fun k => ?_, fun k => ?_,
    fun k => ?_⟩, hX, funext fun k => ?_⟩
  · exact (hY (2 * k)).1.idle (by omega)
  · exact (hY (2 * k)).2.begins (by omega)
  · exact (hY (2 * k + 1)).1.mid (by omega)
  · obtain ⟨m, hm⟩ := (hY (2 * k + 1)).2.finishes (by omega)
    exact ⟨m + 1, hm⟩
  · cases k with
    | zero => rfl
    | succ k => exact congrFun htime k

/-! ## What a drill comes to -/

/-- The requests for segments that replica `r` has counted at time `t`. -/
def segmentRequests (X : Timed (Pool.step (serverStep D)) ℚ) (r : ρ) (t : ℚ) : ℕ :=
  ((X.stateAt t).shared.metrics r).httpRequestsOf "/segment"

namespace Drill

variable {setup : List (ω × ServerAct)} {env : ℕ → Env} {j : ℕ} {mid : Handling → Prop}
  {Y : Timed (run (Pool.step (serverStep D))) ℚ} {X : Timed (Pool.step (serverStep D)) ℚ}
  (h : Drill D w id st setup env j mid Y) (hX : X.Flattens Y)

include h

/-- The events of a block after the first one. -/
theorem mem_block {k : ℕ} {e : ω × ServerAct} (he : e ∈ Y.event (k + 1)) :
    e = (w, .take (.segment id)) ∨ e = (w, .go (env (k + 1))) := by
  obtain ⟨i, rfl | rfl⟩ := Nat.even_or_odd' k
  · rw [h.begins, List.mem_cons] at he
    exact he.imp_right List.eq_of_mem_replicate
  · obtain ⟨m, hm⟩ := h.finishes i
    exact Or.inr (List.eq_of_mem_replicate (hm ▸ he))

include hX

theorem state_zero : X.state 0 = Service.boot D fun _ => 0 := hX.state_zero.trans h.boot

theorem reachable (n : ℕ) :
    Reachable (Pool.step (serverStep D)) (Service.boot D fun _ => 0) (X.state n) :=
  h.state_zero hX ▸ X.reachable n

/-- Each event has the environment of its time. -/
theorem event (n : ℕ) : (X.time n = Y.time 0 ∧ X.event n ∈ setup) ∨ ∃ k, X.time n = Y.time (k + 1) ∧
    (X.event n = (w, .take (.segment id)) ∨ X.event n = (w, .go (env (k + 1)))) := by
  obtain ⟨k, pre, post, hk, -, htime, -⟩ := hX.blocks n
  have hmem : X.event n ∈ Y.event k := by simp [hk]
  cases k with
  | zero => exact Or.inl ⟨htime, h.setup ▸ hmem⟩
  | succ k => exact Or.inr ⟨k, htime, h.mem_block hmem⟩

/-- After the setup, the chaos state stays what it is. -/
theorem drilling_state (hD : Drilling.Smooth D w id st) {n : ℕ} (hn : Y.time 0 < X.time n) :
    ∃ m now, Drilling D w id st m now (X.state n) := by
  obtain ⟨k, pre, post, hk, hrun, htime, -⟩ := hX.blocks n
  cases k with
  | zero => exact absurd htime hn.ne'
  | succ k =>
    obtain ⟨m, hm⟩ := (h.drilling k).run_events hD (fun e he => h.mem_block (by simp [hk, he])) hrun
    exact ⟨m, _, hm⟩

/-- At any time, the thread is idle, or `mid` holds. -/
theorem thread (t : ℚ) :
    (∃ last, (X.stateAt t).thread w = .idle last) ∨ mid ((X.stateAt t).thread w) := by
  rw [hX.stateAt, Timed.stateAt]
  cases Y.count t with
  | zero =>
    rw [h.boot]
    exact Or.inl ⟨none, rfl⟩
  | succ k =>
    obtain ⟨i, rfl | rfl⟩ := Nat.even_or_odd' k
    · exact Or.inl (h.idle i)
    · exact Or.inr (h.mid i)

/-- What has been counted at time `t`. -/
theorem counted (t : ℚ) : ((X.stateAt t).shared.metrics (D.replica w)).httpRequestsOf "/segment" +
    ((X.stateAt t).thread w).uncounted = Y.count t / 2 := by
  rw [hX.stateAt, Timed.stateAt]
  cases Y.count t with
  | zero =>
    rw [h.boot]
    rfl
  | succ k => exact (h.drilling k).serving.counted

/-- One block after the other, at a fixed rate, the requests are counted at half of that rate. -/
theorem requests_rate {rate : ℚ} (hrate : 0 < rate) (htime : ∀ k, Y.time k = k / rate) {s t : ℚ}
    (hst : s ≤ t) :
    (segmentRequests X (D.replica w) t - segmentRequests X (D.replica w) s : ℚ) ≤
        rate / 2 * (t - s) + 2 ∧
      (0 ≤ s → rate / 2 * (t - s) - 2 ≤
        (segmentRequests X (D.replica w) t - segmentRequests X (D.replica w) s : ℚ)) := by
  have hbounds : ∀ t, (Y.count t : ℚ) ≤ 2 * segmentRequests X (D.replica w) t + 3 ∧
      (2 * segmentRequests X (D.replica w) t : ℚ) ≤ Y.count t := by
    intro t
    have hle : ((X.stateAt t).thread w).uncounted ≤ 1 := by
      cases (X.stateAt t).thread w <;> simp [Handling.uncounted]
    have hcount : segmentRequests X (D.replica w) t + _ = _ := h.counted hX t
    constructor
    · exact_mod_cast (by omega : Y.count t ≤ 2 * segmentRequests X (D.replica w) t + 3)
    · exact_mod_cast (by omega : 2 * segmentRequests X (D.replica w) t ≤ Y.count t)
  obtain ⟨hslow, hshigh⟩ := hbounds s
  obtain ⟨htlow, hthigh⟩ := hbounds t
  constructor
  · have := Timed.count_periodic_le hrate htime hst
    linarith
  · intro hs
    have := Timed.le_count_periodic hrate htime hs t
    linarith

/-- The other counters are not far from that of the requests. -/
theorem counters [Unique ω] (hlib : D.AcceptsExemplars) (t : ℚ) :
    let m := (X.stateAt t).shared.metrics (D.replica w)
    (m.httpRequestsOf "/segment" ≤ m.requestLatencyCount "/segment" ∧
        m.requestLatencyCount "/segment" ≤ m.httpRequestsOf "/segment" + 1) ∧
      (m.httpRequests "/segment" "200" + m.httpRequests "/segment" "500" = m.httpRequestsOf "/segment") ∧
      (PyFloat.le st.errorRate (.fin 0) = true →
        m.httpRequests "/segment" "200" = m.httpRequestsOf "/segment" ∧
          m.httpRequestsOf "/segment" ≤ m.cacheHitsTotal + m.cacheMissesTotal ∧
          m.cacheHitsTotal + m.cacheMissesTotal ≤ m.httpRequestsOf "/segment" + 1) := by
  intro m
  have hreach := h.reachable hX (X.count t)
  obtain ⟨hflight, hsum, hlookups, -, hlatencies⟩ := service_counters hlib hreach (D.replica w)
  have hone : m.inflightRequests ≤ 1 := by
    refine hflight.trans_le ?_
    exact_mod_cast (Finset.card_filter_le _ _).trans_eq (by simp)
  have hnone : PyFloat.le st.errorRate (.fin 0) = true → m.httpRequests "/segment" "500" = 0 := by
    intro hrate
    have hend : m = (Y.state (Y.count t)).shared.metrics (D.replica w) :=
      congrArg (fun s : Server ω ρ => s.shared.metrics (D.replica w)) (hX.stateAt t)
    rw [hend]
    cases Y.count t with
    | zero =>
      rw [h.boot]
      rfl
    | succ k => exact ((h.drilling k).serving.faults hrate).1
  change (m.httpRequestsOf "/segment" : ℤ) = m.httpRequests "/segment" "200" +
    m.httpRequests "/segment" "500" at hsum
  change (m.httpRequests "/segment" "200" : ℤ) ≤ m.cacheHitsTotal + m.cacheMissesTotal ∧
    (m.cacheHitsTotal + m.cacheMissesTotal : ℤ) ≤ m.httpRequests "/segment" "200" +
      m.inflightRequests at hlookups
  change (m.httpRequestsOf "/segment" : ℤ) ≤ m.requestLatencyCount "/segment" ∧
    (m.requestLatencyCount "/segment" : ℤ) ≤ m.httpRequestsOf "/segment" +
      m.inflightRequests at hlatencies
  refine ⟨by omega, by omega, fun hrate => ?_⟩
  have := hnone hrate
  omega

end Drill

/-! ## One replica with one thread -/

/-- One strict replica with one thread, whose breaker opens at the first failure, for a second. -/
def solo : Rollout Unit Unit where
  replica := fun w => w
  config := fun _ => ⟨.redis, ⟨true, Breaker.Settings.init 1 (.fin 1)⟩, 60, .fin (3 / 20)⟩
  segmentSizeBytes := 4
  sleepLimit := 1000
  chaosVar := fun _ => none
  tracing := fun _ => false
  exemplarReply := fun _ _ => .accepted

/-- The same replica with the chaos endpoint. -/
def soloChaos : Rollout Unit Unit := { solo with chaosVar := fun _ => some "true" }

/-- Its thread takes up a request, and makes some steps. -/
def soloHandle (request : Request) (steps : ℕ) : List (Unit × ServerAct) :=
  ((), .take request) :: List.replicate steps ((), .go calm)

theorem acceptsExemplars_solo : solo.AcceptsExemplars := fun _ _ _ => by simp [solo]

theorem not_raises_solo (e : PyError) : ¬ solo.Raises () "ab" e := by
  cases e <;> decide +kernel

/-- After `setup`, the thread is idle and has not been asked for a segment, and the chaos state is
`st`. -/
def SetsUp (D : Rollout Unit Unit) (st : ChaosState) (setup : List (Unit × ServerAct)) : Prop :=
  (run (Pool.step (serverStep D)) (boot D fun _ => 0) setup).map (fun s =>
    decide ((s.thread ()).rank = 0 ∧ (s.shared.world.proc (D.replica ())).clock = 0 ∧
      (s.shared.chaos (D.replica ())).state = st ∧
        (s.shared.metrics (D.replica ())).httpRequestsOf "/segment" = 0 ∧
          (s.shared.metrics (D.replica ())).httpRequests "/segment" "500" = 0)) = some true

instance (D : Rollout Unit Unit) (st : ChaosState) (setup : List (Unit × ServerAct)) :
    Decidable (SetsUp D st setup) := inferInstanceAs (Decidable (_ = _))

/-- A drill of the only thread. -/
theorem exists_drill_of_setsUp {D : Rollout Unit Unit} {st : ChaosState} {setup : List (Unit × ServerAct)}
    (env : ℕ → Env) (hsetup : SetsUp D st setup) (hne : setup ≠ []) (hD : Drilling.Smooth D () "ab" st)
    (henv : Monotone fun k => (env k).now) (hnow : 0 ≤ (env 1).now) {j : ℕ} {mid : Handling → Prop}
    (hmid : Leads D () "ab" st (· = .segment "ab") j mid) (hpos : ∀ h, mid h → 0 < h.rank)
    {time : ℕ → ℚ} (hmono : Monotone time) (hunbounded : ∀ t, ∃ k, t < time k) :
    ∃ (Y : Timed (run (Pool.step (serverStep D))) ℚ) (X : Timed (Pool.step (serverStep D)) ℚ),
      Drill D () "ab" st setup env j mid Y ∧ X.Flattens Y ∧ Y.time = time := by
  obtain ⟨s, hs, hobs⟩ := Option.map_eq_some_iff.1 hsetup
  obtain ⟨hrank, hclock, hchaos, hcount, hfailed⟩ := of_decide_eq_true hobs
  obtain ⟨last, hlast⟩ := eq_idle_of_rank hrank
  have hserving : Serving (D.replica ()) "ab" st 0 s.shared (s.thread ()) := by
    rw [hlast]
    exact ⟨hchaos, trivial, hcount, fun _ => ⟨hfailed, rfl⟩⟩
  exact exists_drill hD hs hne hserving hrank (hclock.trans_le hnow) henv hmid hpos hmono hunbounded

/-- The environment of an event. -/
theorem Drill.env_of_go {D : Rollout Unit Unit} {st : ChaosState} {request : Request} {steps : ℕ}
    {env : ℕ → Env} {j : ℕ} {mid : Handling → Prop} {Y : Timed (run (Pool.step (serverStep D))) ℚ}
    {X : Timed (Pool.step (serverStep D)) ℚ}
    (h : Drill D () "ab" st (soloHandle request steps) env j mid Y) (hX : X.Flattens Y) {n : ℕ} {e : Env}
    (he : (X.event n).2 = .go e) :
    (X.time n = Y.time 0 ∧ e = calm) ∨ ∃ k, X.time n = Y.time (k + 1) ∧ e = env (k + 1) := by
  rcases h.event hX n with ⟨htime, hmem⟩ | ⟨k, htime, hn | hn⟩
  · rcases List.mem_cons.1 hmem with hn | hn
    · rw [hn] at he
      cases he
    · rw [List.eq_of_mem_replicate hn] at he
      exact Or.inl ⟨htime, (ServerAct.go.inj he).symm⟩
  · rw [hn] at he
    cases he
  · rw [hn] at he
    exact Or.inr ⟨k, htime, (ServerAct.go.inj he).symm⟩

/-- With four blocks in a second, and a clock that runs with the time. -/
theorem exists_quarter_drill {D : Rollout Unit Unit} {st : ChaosState} {setup : List (Unit × ServerAct)}
    (env : ℕ → Env) (henv : ∀ k, (env k).now = k / 4) (hsetup : SetsUp D st setup) (hne : setup ≠ [])
    (hD : Drilling.Smooth D () "ab" st) {j : ℕ} {mid : Handling → Prop}
    (hmid : Leads D () "ab" st (· = .segment "ab") j mid) (hpos : ∀ h, mid h → 0 < h.rank) :
    ∃ (Y : Timed (run (Pool.step (serverStep D))) ℚ) (X : Timed (Pool.step (serverStep D)) ℚ),
      Drill D () "ab" st setup env j mid Y ∧ X.Flattens Y ∧ ∀ k, Y.time k = k / 4 := by
  have hmono : Monotone fun k => (env k).now := by
    simp only [henv]
    exact monotone_periodic four_pos
  obtain ⟨Y, X, h, hX, htime⟩ := exists_drill_of_setsUp env hsetup hne hD hmono (by norm_num [henv])
    hmid hpos (monotone_periodic four_pos) (unbounded_periodic four_pos)
  exact ⟨Y, X, h, hX, congrFun htime⟩

/-- Its states, and those of its blocks. -/
theorem stateAt_quarter {D : Rollout Unit Unit} {Y : Timed (run (Pool.step (serverStep D))) ℚ}
    {X : Timed (Pool.step (serverStep D)) ℚ} (hX : X.Flattens Y) (htime : ∀ k, Y.time k = k / 4) (k : ℕ) :
    X.stateAt (k / 4) = Y.state (k + 1) := by
  rw [hX.stateAt, Timed.stateAt, Timed.count_periodic four_pos htime]

theorem smooth_solo : Drilling.Smooth solo () "ab" {} := ⟨not_raises_solo, by decide +kernel⟩

/-- `solo` is asked for its health first. -/
theorem setsUp_solo : SetsUp solo {} (soloHandle .healthz 3) := by decide +kernel

/-- Redis answers, and the clock runs with the time. -/
def quarterEnv (k : ℕ) : Env := { calm with now := k / 4 }

/-- Redis answers for ten seconds. -/
def outageEnv (k : ℕ) : Env :=
  { quarterEnv k with reply := if k ≤ 40 then .answers true else .raises false }

/-- It does not answer after that. -/
theorem Drill.reply_outageEnv {D : Rollout Unit Unit} {st : ChaosState} {request : Request} {steps : ℕ}
    {j : ℕ} {mid : Handling → Prop} {Y : Timed (run (Pool.step (serverStep D))) ℚ}
    {X : Timed (Pool.step (serverStep D)) ℚ}
    (h : Drill D () "ab" st (soloHandle request steps) outageEnv j mid Y) (hX : X.Flattens Y)
    (htime : ∀ k, Y.time k = k / 4) {n : ℕ} (hn : 10 < X.time n) {e : Env}
    (he : (X.event n).2 = .go e) : e.reply = .raises false := by
  rcases h.env_of_go hX he with ⟨hzero, -⟩ | ⟨k, hk, rfl⟩
  · rw [hzero, htime] at hn
    norm_num at hn
  · rw [hk, htime, lt_div_iff₀ four_pos] at hn
    refine if_neg fun hle => ?_
    have : ((k + 1 : ℕ) : ℚ) ≤ 40 := by exact_mod_cast hle
    linarith

end EdgeCache.Service
