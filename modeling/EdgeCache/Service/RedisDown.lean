import EdgeCache.Alerts.Availability
import EdgeCache.Cache.Reports
import EdgeCache.Service.Outage

/-!
# Redis being down is reported

From the calls of Redis to the alert. `EdgeCacheRedisDown` reads the gauge `redis_up` of each
replica, to which the lookups and the writes of all its requests report, behind the breaker or not.
While Redis does not answer a replica, the first lookup that reports has the gauge at 0, and no
request raises it again; the alert fires a minute later. While Redis answers, the alert is not
raised at all (`redisDown_detects`).
-/

namespace EdgeCache.Service

open Alerts Breaker Cache Transition

variable {ω ρ : Type*} [DecidableEq ρ] {D : Rollout ω ρ} {w : ω} {M M' : Shared ρ} {h h' : Handling}

/-! ## One step -/

/-- Where the request is in a call behind the breaker. -/
def Handling.guard : Handling → Guard Unit
  | .cache _ t => t.guard
  | _ => .done .skipped

/-- If the step calls Redis, the call returns. -/
def ServerAct.RedisAnswers (a : ServerAct) : Prop :=
  ∀ env, a = .go env → ∃ kept, env.reply = .answers kept

theorem ServerAct.exists_reply (a : ServerAct) : ∃ reply, ∀ env, a = .go env → env.reply = reply := by
  cases a with
  | take => exact ⟨.answers true, by rintro _ ⟨⟩⟩
  | go env => exact ⟨env.reply, fun _ h => congrArg Env.reply (ServerAct.go.inj h).symm⟩

theorem ServerAct.RedisDown.reply {a : ServerAct} (ha : a.RedisDown) :
    ∃ applied, ∀ env, a = .go env → env.reply = .raises applied := by
  cases a with
  | take => exact ⟨false, by rintro _ ⟨⟩⟩
  | go env =>
    obtain ⟨applied, hreply⟩ := ha env rfl
    exact ⟨applied, fun _ h => ServerAct.go.inj h ▸ hreply⟩

theorem ServerAct.RedisAnswers.reply {a : ServerAct} (ha : a.RedisAnswers) :
    ∃ kept, ∀ env, a = .go env → env.reply = .answers kept := by
  cases a with
  | take => exact ⟨false, by rintro _ ⟨⟩⟩
  | go env =>
    obtain ⟨kept, hreply⟩ := ha env rfl
    exact ⟨kept, fun _ h => ServerAct.go.inj h ▸ hreply⟩

/-- A flush changes no process. -/
theorem proc_flush (W : World ρ) (c : Replica) (r : ρ) (reply : Reply) :
    (W.flush c r reply).proc = W.proc := by
  unfold World.flush
  split <;> rfl

/-- **What a step of a thread does behind the breaker** of its replica, and to those of the
others. -/
theorem guard_serverStep {a : ServerAct} {reply : Reply} (hreply : ∀ env, a = .go env → env.reply = reply)
    (hstep : serverStep D w M h a = some (M', h')) :
    (∀ r, r ≠ D.replica w → M'.world.proc r = M.world.proc r) ∧
      ∃ now, (h.guard.rank ≠ 0 → ∃ env, a = .go env ∧ env.now = now) ∧
        GuardEffect (D.config (D.replica w)).guard now reply (M.world.proc (D.replica w)) h.guard
          (M'.world.proc (D.replica w)) h'.guard := by
  -- a step that the cache has no part in
  have houtside : h.guard.rank = 0 → h'.guard.rank = 0 → M'.world.proc = M.world.proc →
      (∀ r, r ≠ D.replica w → M'.world.proc r = M.world.proc r) ∧
        ∃ now, (h.guard.rank ≠ 0 → ∃ env, a = .go env ∧ env.now = now) ∧
          GuardEffect (D.config (D.replica w)).guard now reply (M.world.proc (D.replica w)) h.guard
            (M'.world.proc (D.replica w)) h'.guard := fun hrank hrank' hproc => by
    rw [hproc]
    exact ⟨fun _ _ => rfl, _, fun hne => absurd hrank hne, .outside _ _ hrank (Or.inl hrank')⟩
  rcases serverStep_cases hstep with ⟨last, request, rfl, rfl, rfl, rfl⟩ | ⟨env, rfl, heff⟩
  · exact houtside rfl (by cases request <;> rfl) rfl
  cases heff with
  | chaosRead id read =>
    refine houtside rfl ?_ rfl
    cases read with
    | latencyTest | rateTest | bypass => rfl
    | latencySleep | rateDraw =>
      simp only [afterChaosRead]
      split <;> rfl
  | call id W t hW =>
    obtain ⟨-, hothers, -⟩ := proc_fleetStep hW
    obtain ⟨-, -, rfl, rfl⟩ := fleetStep_getSegment.1 hW
    refine ⟨hothers, env.now, fun _ => ⟨env, rfl, rfl⟩, ?_⟩
    simp only [World.tick, Function.update_self]
    exact .outside _ _ rfl (Or.inl (by split <;> rfl))
  | cache id t t' W hW =>
    obtain ⟨-, hothers, -⟩ := proc_fleetStep hW
    obtain ⟨-, W₁, hseg, rfl⟩ := fleetStep_go.1 hW
    rw [hreply env rfl] at hseg
    refine ⟨hothers, env.now, fun _ => ⟨env, rfl, rfl⟩, ?_⟩
    simp only [World.tick, Function.update_self]
    exact guard_segmentEffect hseg
  | flush body state W t _ hW =>
    obtain ⟨-, hothers, -⟩ := proc_fleetStep hW
    obtain ⟨-, -, rfl, -⟩ := fleetStep_flush.1 hW
    refine ⟨hothers, env.now, fun _ => ⟨env, rfl, rfl⟩, ?_⟩
    simp only [World.tick, Function.update_self, proc_flush]
    exact .outside _ _ rfl (Or.inl rfl)
  | returned id id' result => exact houtside rfl (by simp only [afterLookup]; split <;> rfl) rfl
  | countRequest o => exact houtside rfl (by cases o <;> rfl) rfl
  | inflightInc | raised | originFetch | observe | observeExemplar | refused | refusedLate |
    observeAgain | finish | healthz | notFound | unprocessable | readChaos | beginUpdate | update |
    updated | copy | answer => exact houtside rfl rfl rfl

variable [DecidableEq ω]

/-- The same of the threads of one replica `r`: the step is of another replica, or of one of
them. -/
theorem guard_step {s s' : Server ω ρ} {v : ω} {a : ServerAct} {reply : Reply}
    (hreply : ∀ env, a = .go env → env.reply = reply)
    (hstep : Pool.step (serverStep D) s (v, a) = some s') (r : ρ) :
    (D.replica v ≠ r ∧ s'.shared.world.proc r = s.shared.world.proc r ∧
        ∀ w, D.replica w = r → (s'.thread w).guard = (s.thread w).guard) ∨
      (D.replica v = r ∧ (∀ w, w ≠ v → (s'.thread w).guard = (s.thread w).guard) ∧
        ∃ now, ((s.thread v).guard.rank ≠ 0 → ∃ env, a = .go env ∧ env.now = now) ∧
          GuardEffect (D.config r).guard now reply (s.shared.world.proc r) (s.thread v).guard
            (s'.shared.world.proc r) (s'.thread v).guard) := by
  obtain ⟨M', h', hv, rfl⟩ := Pool.step_eq_some.1 hstep
  obtain ⟨hothers, now, hnow, heff⟩ := guard_serverStep hreply hv
  have hsame : ∀ w, w ≠ v → (Function.update s.thread v h' w).guard = (s.thread w).guard :=
    fun w hw => by rw [Function.update_of_ne hw]
  by_cases hr : D.replica v = r
  · subst hr
    exact Or.inr ⟨rfl, hsame, now, hnow, by simpa using heff⟩
  · exact Or.inl ⟨hr, hothers r (Ne.symm hr), fun w hw => hsame w fun hwv => hr (hwv ▸ hw)⟩

/-! ## The gauges in time -/

variable {K : Type*} [Field K] [LinearOrder K] [IsStrictOrderedRing K]

/-- `redis_up` of each replica, as the rule reads it. -/
def redisUpScraped (X : Timed (Pool.step (serverStep D)) K) (r : ρ) (t : K) : K :=
  ((X.stateAt t).shared.world.proc r).redisUp

/-- From time `F` to time `G`, Redis answers no call of replica `r`, and no request of `r` that it
answered before is still to report so. -/
structure Unreachable (X : Timed (Pool.step (serverStep D)) K) (r : ρ) (F G : K) : Prop where
  strict : (D.config r).backend = .redis
  down : ∀ n, F < X.time n → X.time n ≤ G → D.replica (X.event n).1 = r → (X.event n).2.RedisDown
  reported : ∀ w, D.replica w = r → ((X.stateAt F).thread w).guard.report ≠ some true

/-- No request of replica `r` is going to report that Redis is up. -/
def NoneUp (r : ρ) (s : Server ω ρ) : Prop :=
  ∀ w, D.replica w = r → (s.thread w).guard.report ≠ some true

variable {X : Timed (Pool.step (serverStep D)) K} {r : ρ} {F G : K}

omit [Field K] [IsStrictOrderedRing K] in
/-- Meanwhile, each step keeps to what `GuardEffect.reportDown` says. -/
theorem Unreachable.step (hX : Unreachable X r F G) {n : ℕ} (hn : F < X.time n) (hG : X.time n ≤ G)
    (hnone : NoneUp (D := D) r (X.state n)) :
    NoneUp (D := D) r (X.state (n + 1)) ∧
      (((X.state (n + 1)).shared.world.proc r).redisUp = 0 ∨
        ((X.state (n + 1)).shared.world.proc r).redisUp = ((X.state n).shared.world.proc r).redisUp ∧
          ∀ w, D.replica w = r → ((X.state n).thread w).guard.hasReported = false →
            ((X.state (n + 1)).thread w).guard.hasReported = false) := by
  have hdown := hX.down n hn hG
  have he := X.step_eq n
  rcases hevent : X.event n with ⟨v, a⟩
  rw [hevent] at hdown he
  by_cases hv : D.replica v = r
  · obtain ⟨applied, hreply⟩ := (hdown hv).reply
    obtain ⟨hne, -⟩ | ⟨-, hothers, now, -, heff⟩ := guard_step hreply he r
    · exact absurd hv hne
    obtain ⟨hreport, hup⟩ := heff.reportDown (hnone v hv)
    refine ⟨fun w hw => ?_, hup.imp_right fun ⟨hsame, hreported⟩ => ⟨hsame, fun w _ hw => ?_⟩⟩
    · rcases eq_or_ne w v with rfl | hwv
      · exact hreport
      · exact hothers w hwv ▸ hnone w hw
    · rcases eq_or_ne w v with rfl | hwv
      · exact hreported hw
      · exact (congrArg Guard.hasReported (hothers w hwv)).trans hw
  · obtain ⟨reply, hreply⟩ := a.exists_reply
    obtain ⟨-, hproc, hothers⟩ | ⟨heq, -⟩ := guard_step hreply he r
    · refine ⟨fun w hw => hothers w hw ▸ hnone w hw, Or.inr ⟨congrArg Proc.redisUp hproc, fun w hw => ?_⟩⟩
      exact (congrArg Guard.hasReported (hothers w hw)).trans
    · exact absurd heq hv

/-- Once a call has reported, `redis_up` is 0. -/
theorem Unreachable.redisUp (hX : Unreachable X r F G) (hw : D.replica w = r) {s T t : K} (hs : F ≤ s)
    (hT : s ≤ T) (ht : T ≤ t) (hG : t ≤ G)
    (hbegun : ((X.stateAt s).thread w).guard.hasReported = false)
    (hended : ((X.stateAt T).thread w).guard.hasReported = true) : redisUpScraped X r t = 0 := by
  have hnone : NoneUp (D := D) r (X.stateAt s) :=
    X.invariant_from hX.reported hs fun n hn hns h => (hX.step hn (by linarith) h).1
  let I : Server ω ρ → Prop := fun q => NoneUp (D := D) r q ∧
    ((q.thread w).guard.hasReported = false ∨ (q.shared.world.proc r).redisUp = 0)
  have hreported : I (X.stateAt T) :=
    X.invariant_from ⟨hnone, Or.inl hbegun⟩ hT fun n hn hnT ⟨hnone, hor⟩ => by
      obtain ⟨hnone', hzero | ⟨hsame, hreported⟩⟩ := hX.step (hs.trans_lt hn) (by linarith) hnone
      · exact ⟨hnone', Or.inr hzero⟩
      · exact ⟨hnone', hor.imp (hreported w hw) hsame.trans⟩
  have hzero : ((X.stateAt T).shared.world.proc r).redisUp = 0 :=
    hreported.2.resolve_left (by simp [hended])
  let J : Server ω ρ → Prop := fun q =>
    NoneUp (D := D) r q ∧ (q.shared.world.proc r).redisUp = 0
  have hend : J (X.stateAt t) :=
    X.invariant_from ⟨hreported.1, hzero⟩ ht fun n hn hnt ⟨hnone, hup⟩ => by
      obtain ⟨hnone', hzero | ⟨hsame, -⟩⟩ := hX.step ((hs.trans hT).trans_lt hn) (by linarith) hnone
      · exact ⟨hnone', hzero⟩
      · exact ⟨hnone', hsame.trans hup⟩
  rw [redisUpScraped, hend.2, Nat.cast_zero]

/-- Every replica says that Redis is up, and no request is going to report otherwise. -/
structure Healthy (s : Server ω ρ) : Prop where
  recovered : ∀ r, Recovered (s.shared.world.proc r).breaker
  redisUp : ∀ r, (s.shared.world.proc r).redisUp = 1
  reports : ∀ w, (s.thread w).guard.report ≠ some false

omit [DecidableEq ρ] [DecidableEq ω] in
/-- New strict replicas do. -/
theorem healthy_boot (hredis : ∀ r, (D.config r).backend = .redis) (t : ρ → ℚ) :
    Healthy (boot D t) where
  recovered := fun r => by
    simp only [boot, launch, procInit, hredis r]
    exact ⟨rfl, rfl⟩
  redisUp := fun r => by
    simp only [boot, launch, procInit, hredis r]
    rfl
  reports := fun _ => by rintro ⟨⟩

theorem healthy_step {s s' : Server ω ρ} {e : ω × ServerAct} (hs : Healthy s) (he : e.2.RedisAnswers)
    (hstep : Pool.step (serverStep D) s e = some s') : Healthy s' := by
  obtain ⟨kept, hreply⟩ := he.reply
  have key : ∀ r, Recovered (s'.shared.world.proc r).breaker ∧
      (s'.shared.world.proc r).redisUp = 1 ∧
      ∀ w, D.replica w = r → (s'.thread w).guard.report ≠ some false := fun r => by
    obtain ⟨-, hproc, hothers⟩ | ⟨-, hothers, now, -, heff⟩ := guard_step hreply hstep r
    · rw [hproc]
      exact ⟨hs.recovered r, hs.redisUp r, fun w hw => hothers w hw ▸ hs.reports w⟩
    · obtain ⟨hrecovered, hreport, hup⟩ := heff.reportUp (hs.recovered r) (hs.reports e.1)
      refine ⟨hrecovered, hup.elim id fun ⟨hsame, _⟩ => hsame.trans (hs.redisUp r), fun w _ => ?_⟩
      rcases eq_or_ne w e.1 with rfl | hwv
      · exact hreport
      · exact hothers w hwv ▸ hs.reports w
  exact ⟨fun r => (key r).1, fun r => (key r).2.1, fun w => (key _).2.2 w rfl⟩

variable [Fintype ρ]

theorem isSome_redisDown {t : K} :
    (edgeCacheRedisDown (redisUpScraped X) t).isSome ↔ ∃ r, redisUpScraped X r t = 0 :=
  isSome_edgeCacheRedisDown fun _ => Nat.cast_nonneg _

/-- **Redis being down is reported in time, and nothing else is.** In every execution of the
service: while Redis answers no call of some strict replica, and none of its requests has an earlier
answer still to report, `EdgeCacheRedisDown` is firing at all evaluations from one minute after the
report of a lookup or a write on that replica, whatever its breaker and its other requests do. And
while Redis answers all calls, it is not firing, if at first every replica had recovered and said
so, with no failure still to report. -/
theorem redisDown_detects (X : Timed (Pool.step (serverStep D)) K) (phase : K) :
    (∀ r F G, Unreachable X r F G → ∀ w, D.replica w = r → ∀ s T, F ≤ s → s ≤ T →
      ((X.stateAt s).thread w).guard.hasReported = false →
      ((X.stateAt T).thread w).guard.hasReported = true →
      ∀ n, 2 ≤ n → T + 60 ≤ evaluation phase n → evaluation phase n ≤ G →
        FiringMinute (edgeCacheRedisDown (redisUpScraped X)) phase n) ∧
    ∀ F G, Healthy (X.stateAt F) →
      (∀ n, F < X.time n → X.time n ≤ G → (X.event n).2.RedisAnswers) →
      ∀ n, F ≤ evaluation phase n → evaluation phase n ≤ G →
        ¬ FiringMinute (edgeCacheRedisDown (redisUpScraped X)) phase n := by
  constructor
  · intro r F G hX w hw s T hs hT hbegun hended n hn hTn hG
    refine firingMinute_iff.2 ⟨hn, fun k hnk hkn => isSome_redisDown.2 ⟨r, ?_⟩⟩
    have hlow : (n : K) ≤ k + 2 := by exact_mod_cast (by omega : n ≤ k + 2)
    have hhigh : (k : K) ≤ n := by exact_mod_cast hkn
    simp only [evaluation] at hTn hG ⊢
    exact hX.redisUp hw hs hT (by linarith) (by linarith) hbegun hended
  · intro F G hF hanswers n hFn hG hfiring
    have hhealthy : Healthy (X.stateAt (evaluation phase n)) :=
      X.invariant_from hF hFn fun k hk hkn hs =>
        healthy_step hs (hanswers k hk (hkn.trans hG)) (X.step_eq k)
    obtain ⟨r, hr⟩ := isSome_redisDown.1 ((firingMinute_iff.1 hfiring).2 n (Nat.sub_le n 2) le_rfl)
    rw [redisUpScraped, hhealthy.redisUp r] at hr
    norm_num at hr

/-! ## Two executions -/

omit [Fintype ρ] in
/-- A request that is not interfered with comes to the breaker in five steps. -/
theorem leads_allow {w : ω} {id : String} (hD : Drilling.Smooth D w id {})
    (hredis : (D.config (D.replica w)).backend = .redis) : Leads D w id {} (· = .segment id) 5
      fun h => ∃ span, h = .cache id (.reading id span .allow) := by
  have hbegin : Leads D w id {} (· = .segment id) 1 (· = .chaos id .latencyTest) :=
    .one (by rintro _ rfl; simp [Handling.rank]) fun _ hw heff => by
      subst hw
      cases heff with
      | inflightInc => rfl
  have hlatency : Leads D w id {} (· = .chaos id .latencyTest) 1 (· = .chaos id .rateTest) :=
    .one (by rintro _ rfl; simp [Handling.rank]) fun hstate hw heff => by
      subst hw
      cases heff with
      | chaosRead =>
        have hno : PyFloat.lt (.fin 0) (.fin 0) = false := by decide +kernel
        simp [afterChaosRead, hstate, hno]
  have hrate : Leads D w id {} (· = .chaos id .rateTest) 1 (· = .chaos id .bypass) :=
    .one (by rintro _ rfl; simp [Handling.rank]) fun hstate hw heff => by
      subst hw
      cases heff with
      | chaosRead =>
        have hzero : PyFloat.le (.fin 0) (.fin 0) = true := by decide +kernel
        simp [afterChaosRead, hstate, hzero]
  have hcall : Leads D w id {} (· = .chaos id .bypass) 1 (· = .cache id (.lookup id)) :=
    .one (by rintro _ rfl; simp [Handling.rank]) fun hstate hw heff => by
      subst hw
      cases heff with
      | chaosRead _ _ hne => exact absurd rfl hne
      | call _ W t hW =>
        obtain ⟨-, -, -, rfl⟩ := fleetStep_getSegment.1 hW
        rw [hstate]
        rfl
  have hlookup : Leads D w id {} (· = .cache id (.lookup id)) 1
      fun h => ∃ span, h = .cache id (.reading id span .allow) :=
    .one (by rintro _ rfl; simp [Handling.rank]) fun _ hw heff => by
      subst hw
      cases heff with
      | cache _ _ t' W hW =>
        obtain ⟨-, W₁, hseg, -⟩ := fleetStep_go.1 hW
        cases hseg with
        | lookup => exact ⟨_, rfl⟩
        | lookupMemory _ hmemory => exact absurd (hmemory.symm.trans hredis) (by decide)
  exact ((((hbegin.trans hD hlatency).trans hD hrate).trans hD hcall).trans hD hlookup)

/-- A drill in which lookups fail after ten seconds: a request is before its lookup a quarter of a
second later, and over after another quarter. -/
theorem exists_unreachable : ∃ X : Timed (Pool.step (serverStep solo)) ℚ,
    X.state 0 = boot solo (fun _ => 0) ∧ Unreachable X () 10 100 ∧
      ((X.stateAt (41 / 4)).thread ()).guard.hasReported = false ∧
      ((X.stateAt (42 / 4)).thread ()).guard.hasReported = true := by
  obtain ⟨Y, X, h, hX, htime⟩ := exists_quarter_drill outageEnv (fun _ => rfl) setsUp_solo
    (List.cons_ne_nil _ _) smooth_solo (leads_allow smooth_solo rfl)
    (by rintro _ ⟨span, rfl⟩; simp [Handling.rank])
  have hthread := stateAt_quarter hX htime
  refine ⟨X, h.state_zero hX, ⟨rfl, fun n hn _ _ env henv => ⟨false, h.reply_outageEnv hX htime hn henv⟩,
    fun w _ => ?_⟩, ?_, ?_⟩
  · rcases h.thread hX 10 with ⟨last, hw⟩ | ⟨span, hw⟩ <;> rw [hw] <;> rintro ⟨⟩
  · obtain ⟨span, hw⟩ := h.mid 20
    rw [show X.stateAt (41 / 4) = Y.state 42 by simpa using hthread 41, hw]
    rfl
  · obtain ⟨last, hw⟩ := h.idle 21
    rw [show X.stateAt (42 / 4) = Y.state 43 by simpa using hthread 42, hw]
    rfl

/-- A drill in which Redis answers. -/
theorem exists_healthy : ∃ X : Timed (Pool.step (serverStep solo)) ℚ,
    X.state 0 = boot solo (fun _ => 0) ∧ Healthy (X.stateAt (-1)) ∧ ∀ n, (X.event n).2.RedisAnswers := by
  obtain ⟨Y, X, h, hX, htime⟩ := exists_quarter_drill quarterEnv (fun _ => rfl) setsUp_solo
    (List.cons_ne_nil _ _) smooth_solo (Leads.refl _) (by rintro _ rfl; simp [Handling.rank])
  refine ⟨X, h.state_zero hX, ?_, fun n env henv => ⟨true, ?_⟩⟩
  · rw [hX.stateAt, Y.stateAt_of_lt (by norm_num [htime]), h.boot]
    exact healthy_boot (fun _ => rfl) _
  · rcases h.env_of_go hX henv with ⟨-, rfl⟩ | ⟨k, -, rfl⟩ <;> rfl

/-- When lookups fail, the alert fires at the first evaluation that is a minute later; when Redis
answers them, it does not. -/
theorem redisDown_detects_solo : ∃ X X' : Timed (Pool.step (serverStep solo)) ℚ,
    X.state 0 = boot solo (fun _ => 0) ∧
      FiringMinute (edgeCacheRedisDown (redisUpScraped X)) (0 : ℚ) 3 ∧
        X'.state 0 = boot solo (fun _ => 0) ∧ (∀ n, (X'.event n).2.RedisAnswers) ∧
          ¬ FiringMinute (edgeCacheRedisDown (redisUpScraped X')) (0 : ℚ) 3 := by
  obtain ⟨X, hboot, hdown, hbegun, hended⟩ := exists_unreachable
  obtain ⟨X', hboot', hhealthy, hanswers⟩ := exists_healthy
  refine ⟨X, X', hboot, ?_, hboot', hanswers, ?_⟩
  · refine (redisDown_detects X 0).1 () 10 100 hdown () rfl _ _ ?_ ?_ hbegun hended 3 (by norm_num)
      ?_ ?_ <;> norm_num [evaluation]
  · refine (redisDown_detects X' 0).2 (-1) 100 hhealthy (fun n _ _ => hanswers n) 3 ?_ ?_ <;>
      norm_num [evaluation]

end EdgeCache.Service
