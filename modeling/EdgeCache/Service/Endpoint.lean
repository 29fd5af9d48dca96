import EdgeCache.Service.Answers

/-!
# The chaos endpoint of the service

The chaos module of a replica goes through a run of the calls of `EdgeCache.Service.ChaosUpdates`
(`refines_chaos`), so that its state is in range while none of them is in progress
(`service_chaos_in_range`). A request to the endpoint that no update of the same replica overlaps is
handled as `setChaos` and `readChaos` of `EdgeCache.Service.ChaosAdmin` say, whatever else the
service is doing (`endpoint_sequential`).

A reset is felt by the requests that come after it: once it has been answered, and unless the
replica is updated again, nothing is injected into them (`reset_recovers`).
-/

namespace EdgeCache.Service

open Cache PartialUpdate Transition

variable {ω ρ : Type*} [DecidableEq ρ] {D : Rollout ω ρ} {w : ω} {M M' : Shared ρ} {h h' : Handling}

/-! ## The chaos module of a replica -/

/-- A thread of the service, as one that calls the chaos module of replica `r`. -/
def Handling.chaosCall : Handling → List (Op ChaosField.Value)
  | .updating _ us => us
  | _ => []

theorem chaosCall_start (request : Request) : request.start.chaosCall = [] := by
  cases request <;> rfl

theorem chaosCall_afterChaosRead (sleepLimit draw : ℚ) (state : ChaosState) (id : String)
    (read : ChaosRead) : (afterChaosRead sleepLimit draw state id read).chaosCall = [] := by
  cases read with
  | latencyTest | rateTest | bypass => rfl
  | latencySleep =>
    simp only [afterChaosRead]
    split <;> rfl
  | rateDraw =>
    simp only [afterChaosRead]
    split <;> rfl

/-- A step of a handler is one of a chaos call, or leaves the chaos states alone. -/
theorem chaos_serverEffect {env : Env} (heff : ServerEffect D w env M h M' h') :
    (M'.chaos = M.chaos ∧ h'.chaosCall = h.chaosCall) ∨ ∃ m c,
      chaosStep w (M.chaos (D.replica w)) h.chaosCall c = some (m, h'.chaosCall) ∧
        M'.chaos = Function.update M.chaos (D.replica w) m := by
  cases heff with
  | chaosRead => exact Or.inl ⟨rfl, chaosCall_afterChaosRead _ _ _ _ _⟩
  | returned =>
    unfold afterLookup
    split <;> exact Or.inl ⟨rfl, rfl⟩
  | countRequest o => cases o <;> exact Or.inl ⟨rfl, rfl⟩
  | beginUpdate body m us _ hstep => exact Or.inr ⟨m, _, hstep, rfl⟩
  | update body us us' m _ hstep => exact Or.inr ⟨m, _, hstep, rfl⟩
  | inflightInc | call | cache | raised | originFetch | observe | observeExemplar | refused |
    refusedLate | observeAgain | finish | healthz | notFound | unprocessable | readChaos | updated |
    copy | answer | flush => exact Or.inl ⟨rfl, rfl⟩

/-- **The chaos state of a replica is a run of the chaos calls.** -/
theorem refines_chaos [DecidableEq ω] {t : ρ → ℚ} {s : Server ω ρ}
    (hs : Reachable (Pool.step (serverStep D)) (boot D t) s) (r : ρ) :
    ∃ q, Reachable (Pool.step chaosStep) (chaosStart ω) q ∧ q.shared = s.shared.chaos r ∧
      ∀ w, q.thread w = if D.replica w = r then (s.thread w).chaosCall else [] := by
  let R : Shared ρ → ChaosModule → Prop := fun M m => m = M.chaos r
  let L : ω → Handling → List (Op ChaosField.Value) → Prop := fun w h us =>
    us = if D.replica w = r then h.chaosCall else []
  have hstart : Pool.Related R L (boot D t) (chaosStart ω) := ⟨rfl, fun w => by
    simp only [L]
    split <;> rfl⟩
  have hstep : ∀ {w M h a M' h' m us}, R M m → L w h us →
      serverStep D w M h a = some (M', h') → ∃ m' us',
        Reachable (fun q a => chaosStep w q.1 q.2 a) (m, us) (m', us') ∧ R M' m' ∧ L w h' us' := by
    rintro w M h a M' h' m us rfl rfl he
    by_cases hw : D.replica w = r
    · subst hw
      simp only [R, L, if_true]
      rcases serverStep_cases he with ⟨last, request, -, rfl, rfl, rfl⟩ | ⟨env, -, heff⟩
      · rw [chaosCall_start]
        exact ⟨_, _, Reachable.refl _, rfl, rfl⟩
      · rcases chaos_serverEffect heff with ⟨hM, hcall⟩ | ⟨m, c, hchaos, hM⟩
        · rw [hM, hcall]
          exact ⟨_, _, Reachable.refl _, rfl, rfl⟩
        · refine ⟨m, _, Reachable.single (e := c) hchaos, ?_, rfl⟩
          rw [hM, Function.update_self]
    · -- a thread of another replica
      simp only [R, L, if_neg hw]
      refine ⟨_, _, Reachable.refl _, ?_, rfl⟩
      rcases serverStep_cases he with ⟨last, request, -, rfl, rfl, rfl⟩ | ⟨env, -, heff⟩
      · rfl
      · rcases chaos_serverEffect heff with ⟨hM, -⟩ | ⟨m, c, -, hM⟩
        · rw [hM]
        · rw [hM, Function.update_of_ne (Ne.symm hw)]
  obtain ⟨q, hq, hshared, hthread⟩ := hstart.simulates hstep hs
  exact ⟨q, hq, hshared, hthread⟩

/-- **The chaos state of a replica is in range** for every request to read, in every run of the
service, while no thread of the replica is in a call that changes it. -/
theorem service_chaos_in_range [DecidableEq ω] {t : ρ → ℚ} {s : Server ω ρ}
    (hs : Reachable (Pool.step (serverStep D)) (boot D t) s) {r : ρ}
    (hquiet : ∀ w, D.replica w = r → (s.thread w).chaosCall = []) :
    InRange (s.shared.chaos r).state := by
  obtain ⟨q, ⟨es, hrun⟩, hshared, hthread⟩ := refines_chaos hs r
  have hq : Schema.Quiescent q := fun w => by
    rw [hthread w]
    split_ifs with hw
    · exact hquiet w hw
    · rfl
  rw [run_chaosStep] at hrun
  have hnormal := Schema.normal_of_quiescent normal_init ⟨_, hrun⟩ hq
  rw [hshared] at hnormal
  exact inRange_of_normal hnormal

/-- The first replica is told to delay requests by -5 s and to fail seven of one. -/
def outOfRange : List (Bool × ServerAct) :=
  handle false (.admin (.set { latencySeconds := some (.fin (-5)), errorRate := some (.fin 7) })) 18

theorem service_chaos_in_range_clamped : ∃ s,
    Reachable (Pool.step (serverStep lab)) (boot lab fun _ => 0) s ∧
      (s.shared.chaos false).state = ⟨.fin 0, .fin 1, false⟩ ∧
      InRange (s.shared.chaos false).state := by
  obtain ⟨s, hs, hobs⟩ := Option.map_eq_some_iff.1 (show
    (run (Pool.step (serverStep lab)) (boot lab fun _ => 0) outOfRange).map (fun s =>
      ((s.shared.chaos false).state, (s.thread false).chaosCall.isEmpty)) =
      some (⟨.fin 0, .fin 1, false⟩, true) by decide +kernel)
  obtain ⟨hstate, hquiet⟩ := Prod.mk.inj hobs
  refine ⟨s, ⟨outOfRange, hs⟩, hstate, service_chaos_in_range ⟨outOfRange, hs⟩ fun w hw => ?_⟩
  obtain rfl : w = false := hw
  exact List.isEmpty_iff.1 hquiet

/-! ## Requests that are not overlapped -/

/-- The thread is in a request that may still change the chaos module. -/
def Handling.updates : Handling → Bool
  | .admin (.set _) => true
  | .updating _ us => !us.isEmpty
  | _ => false

/-- The update that a step takes up. -/
def ServerAct.update : ServerAct → Option ChaosUpdate
  | .take (.admin (.set body)) => some body
  | _ => none

theorem update_eq_some {a : ServerAct} {body : ChaosUpdate} :
    a.update = some body ↔ a = .take (.admin (.set body)) := by
  rcases a with ⟨_ | _ | ⟨_ | _⟩ | _⟩ | _ <;> simp [ServerAct.update]

theorem updates_start {request : Request} (ha : (ServerAct.take request).update = none) :
    request.start.updates = false := by
  cases request with
  | segment | healthz | invalid => rfl
  | admin call =>
    cases call with
    | read => rfl
    | set body => cases ha

/-- A thread that is in no update leaves the chaos modules alone. -/
theorem chaos_of_updates_eq_false {a : ServerAct} (hh : h.updates = false) (ha : a.update = none)
    (hstep : serverStep D w M h a = some (M', h')) :
    M'.chaos = M.chaos ∧ h'.updates = false := by
  rcases serverStep_cases hstep with ⟨last, request, rfl, rfl, rfl, rfl⟩ | ⟨env, rfl, heff⟩
  · exact ⟨rfl, updates_start ha⟩
  cases heff with
  | chaosRead id read =>
    refine ⟨rfl, ?_⟩
    cases read with
    | latencyTest | rateTest | bypass => rfl
    | latencySleep =>
      simp only [afterChaosRead]
      split <;> rfl
    | rateDraw =>
      simp only [afterChaosRead]
      split <;> rfl
  | returned =>
    unfold afterLookup
    split <;> exact ⟨rfl, rfl⟩
  | countRequest o => cases o <;> exact ⟨rfl, rfl⟩
  | beginUpdate => cases hh
  | update body us us' m hne => exact absurd (by simpa [Handling.updates] using hh) hne
  | inflightInc | call | cache | raised | originFetch | observe | observeExemplar | refused |
    refusedLate | observeAgain | finish | healthz | notFound | unprocessable | readChaos | updated |
    copy | answer | flush => exact ⟨rfl, rfl⟩

/-- A thread of another replica leaves the chaos module alone. -/
theorem chaos_of_replica_ne {a : ServerAct} {r : ρ} (hr : D.replica w ≠ r)
    (hstep : serverStep D w M h a = some (M', h')) : M'.chaos r = M.chaos r := by
  rcases serverStep_cases hstep with ⟨last, request, -, -, rfl, -⟩ | ⟨env, -, heff⟩
  · rfl
  · rcases chaos_serverEffect heff with ⟨hM, -⟩ | ⟨m, c, -, hM⟩
    · rw [hM]
    · rw [hM, Function.update_of_ne (Ne.symm hr)]

/-- `read_chaos` or `set_chaos`, for a request that is handled alone. -/
def AdminCall.handle (call : AdminCall) (var : Option String) (c : Replica) (r : ρ) (reply : Reply)
    (s : Site ρ) : Site ρ × Except PyError AdminResponse :=
  match call with
  | .read => (s, readChaos var s)
  | .set body => setChaos var c r reply body s

/-- The chaos module that it leaves. -/
def AdminCall.leaves (call : AdminCall) (m : ChaosModule) : ChaosModule :=
  match call with
  | .read => m
  | .set body => m.call body.call

theorem handle_of_enabled {var : Option String} (hon : chaosEnabled var = true) (call : AdminCall)
    (c : Replica) (r : ρ) (reply : Reply) (s : Site ρ) :
    (call.handle var c r reply s).1.chaos = call.leaves s.chaos ∧
      (call.handle var c r reply s).2 = jsonResponse (call.leaves s.chaos).state call.actions := by
  cases call with
  | read => exact ⟨rfl, if_pos hon⟩
  | set body =>
    simp only [AdminCall.handle, setChaos, if_pos hon, AdminCall.leaves, AdminCall.actions,
      ChaosUpdate.call, ChaosUpdate.flushes]
    by_cases hreset : body.reset = some true
    · simp [hreset]
    · by_cases hflush : body.flushCache = some true <;> simp [hreset, hflush]

theorem handle_of_disabled {var : Option String} (hoff : chaosEnabled var = false) (call : AdminCall)
    (c : Replica) (r : ρ) (reply : Reply) (s : Site ρ) :
    call.handle var c r reply s = (s, .ok .notFound) := by
  cases call <;> simp [AdminCall.handle, readChaos, setChaos, hoff]

/-- Where a request is that began when the chaos module was `m₀`, and that nothing has
overlapped. -/
def Handling.Performs (enabled : Bool) (call : AdminCall) (m₀ m : ChaosModule) : Handling → Prop
  | .admin call' => call' = call ∧ m = m₀
  | .updating body us =>
    enabled = true ∧ call = .set body ∧ us.foldl chaosSchema.execute m = call.leaves m₀
  | .asdict call' state rest =>
    enabled = true ∧ call' = call ∧ m = call.leaves m₀ ∧
      rest.foldl (fun state f => state.copy m f) state = m.state
  | .idle last => ∃ response, last = some (.admin response) ∧
    if enabled then m = call.leaves m₀ ∧ response = jsonResponse m.state call.actions
    else m = m₀ ∧ response = .ok .notFound
  | _ => False

omit [DecidableEq ρ] in
/-- The first access of a call, and the rest without an interruption. -/
theorem foldl_execute_advance (m : ChaosModule) (us : List (Op ChaosField.Value)) :
    (chaosSchema.advance m us).2.foldl chaosSchema.execute (chaosSchema.advance m us).1 =
      us.foldl chaosSchema.execute m := by
  cases us with
  | nil => rfl
  | cons o os => cases o <;> rfl

omit [DecidableEq ρ] in
theorem foldl_execute_begin {m m' : ChaosModule} {us : List (Op ChaosField.Value)} {c : ChaosCall}
    (hstep : chaosStep w m [] (some c) = some (m', us)) :
    us.foldl chaosSchema.execute m' = m.call c := by
  have heq : chaosSchema.advance m (chaosSchema.script c.call) = (m', us) := Option.some.inj hstep
  have hfold := foldl_execute_advance m (chaosSchema.script c.call)
  rw [heq] at hfold
  exact hfold

omit [DecidableEq ρ] in
theorem foldl_execute_go {m m' : ChaosModule} {us us' : List (Op ChaosField.Value)}
    (hstep : chaosStep w m us none = some (m', us')) :
    us'.foldl chaosSchema.execute m' = us.foldl chaosSchema.execute m := by
  cases us with
  | nil => cases hstep
  | cons o os =>
    have heq : chaosSchema.advance m (o :: os) = (m', us') := Option.some.inj hstep
    have hfold := foldl_execute_advance m (o :: os)
    rw [heq] at hfold
    exact hfold

theorem performs_serverEffect {env : Env} {call : AdminCall} {m₀ : ChaosModule}
    (hh : h.Performs (chaosEnabled (D.chaosVar (D.replica w))) call m₀ (M.chaos (D.replica w)))
    (heff : ServerEffect D w env M h M' h') :
    h'.Performs (chaosEnabled (D.chaosVar (D.replica w))) call m₀ (M'.chaos (D.replica w)) := by
  cases heff with
  | notFound call' hoff => exact ⟨_, rfl, by simp [hoff, hh.2]⟩
  | readChaos hon =>
    obtain ⟨rfl, hm⟩ := hh
    exact ⟨hon, rfl, hm, rfl⟩
  | beginUpdate body m us hon hstep =>
    obtain ⟨rfl, rfl⟩ := hh
    refine ⟨hon, rfl, ?_⟩
    rw [Shared.chaos_setChaos, Function.update_self]
    exact foldl_execute_begin hstep
  | update body us us' m _ hstep =>
    obtain ⟨hon, rfl, hcall⟩ := hh
    refine ⟨hon, rfl, ?_⟩
    rw [Shared.chaos_setChaos, Function.update_self, foldl_execute_go hstep, hcall]
  | updated body =>
    obtain ⟨hon, rfl, hcall⟩ := hh
    exact ⟨hon, rfl, hcall, rfl⟩
  | copy call' state f rest => exact hh
  | answer call' state =>
    obtain ⟨hon, rfl, hm, rfl⟩ := hh
    exact ⟨_, rfl, by simp [hon, hm]⟩
  | flush body state =>
    obtain ⟨hon, rfl, hm, rfl⟩ := hh
    exact ⟨_, rfl, by simp [hon, hm]⟩
  | inflightInc | chaosRead | call | cache | raised | returned | originFetch | observe |
    observeExemplar | refused | refusedLate | observeAgain | countRequest | finish | healthz |
    unprocessable => exact hh.elim

/-- The request of thread `w`, which began when the chaos module was `m₀`, has not been
overlapped. -/
structure NotOverlapped (D : Rollout ω ρ) (w : ω) (call : AdminCall) (m₀ : ChaosModule)
    (s : Server ω ρ) : Prop where
  performs : (s.thread w).Performs (chaosEnabled (D.chaosVar (D.replica w))) call m₀
    (s.shared.chaos (D.replica w))
  quiet : ∀ v, D.replica v = D.replica w → v ≠ w → (s.thread v).updates = false

/-- Its thread goes on with it, and no thread of the replica takes up an update. -/
def KeepsClear (D : Rollout ω ρ) (w : ω) (e : ω × ServerAct) : Prop :=
  (e.1 = w → e.2.isGo = true) ∧ (D.replica e.1 = D.replica w → e.2.update = none)

theorem NotOverlapped.step [DecidableEq ω] {call : AdminCall} {m₀ : ChaosModule}
    {s s' : Server ω ρ} {e : ω × ServerAct} (hs : NotOverlapped D w call m₀ s) (he : KeepsClear D w e)
    (hstep : Pool.step (serverStep D) s e = some s') : NotOverlapped D w call m₀ s' := by
  obtain ⟨v, a⟩ := e
  obtain ⟨hgo, hupdate⟩ := he
  obtain ⟨M', h', hv, rfl⟩ := Pool.step_eq_some.1 hstep
  constructor
  · rcases eq_or_ne v w with rfl | hne
    · have ha := hgo rfl
      rcases serverStep_cases hv with ⟨last, request, rfl, -⟩ | ⟨env, rfl, heff⟩
      · cases ha
      · simpa using performs_serverEffect hs.performs heff
    · have hM : M'.chaos (D.replica w) = s.shared.chaos (D.replica w) := by
        by_cases hr : D.replica v = D.replica w
        · rw [(chaos_of_updates_eq_false (hs.quiet v hr hne) (hupdate hr) hv).1]
        · exact chaos_of_replica_ne hr hv
      simpa [hne.symm, hM] using hs.performs
  · intro u hu huw
    rcases eq_or_ne u v with rfl | huv
    · simpa using (chaos_of_updates_eq_false (hs.quiet u hu huw) (hupdate hu) hv).2
    · simpa [huv] using hs.quiet u hu huw

/-- **A request that no update overlaps is handled as if it were alone**: when no other thread of
the replica is in an update, or takes one up before the request is answered, the answer is that of
`read_chaos` or `set_chaos`, and so is the chaos module that it leaves. -/
theorem endpoint_sequential [DecidableEq ω] {s s' : Server ω ρ} {es : List (ω × ServerAct)}
    {call : AdminCall} (hw : s.thread w = .admin call)
    (hquiet : ∀ v, D.replica v = D.replica w → v ≠ w → (s.thread v).updates = false)
    (hes : ∀ e ∈ es, KeepsClear D w e) (hrun : run (Pool.step (serverStep D)) s es = some s')
    {last : Option Answer} (hlast : s'.thread w = .idle last) (reply : Reply) (W : World ρ) :
    let alone := call.handle (D.chaosVar (D.replica w)) (D.config (D.replica w)) (D.replica w) reply
      ⟨s.shared.chaos (D.replica w), W⟩
    s'.shared.chaos (D.replica w) = alone.1.chaos ∧ last = some (.admin alone.2) := by
  intro alone
  let m₀ := s.shared.chaos (D.replica w)
  have hstart : NotOverlapped D w call m₀ s := ⟨by rw [hw]; exact ⟨rfl, rfl⟩, hquiet⟩
  have key : ∀ s e s', NotOverlapped D w call m₀ s → KeepsClear D w e →
      Pool.step (serverStep D) s e = some s' → NotOverlapped D w call m₀ s' :=
    fun _ _ _ hs he hstep => hs.step he hstep
  have hend := (along_of_forall hes).invariant key hstart hrun
  have hperforms := hend.performs
  rw [hlast] at hperforms
  obtain ⟨response, rfl, hresponse⟩ := hperforms
  by_cases hon : chaosEnabled (D.chaosVar (D.replica w)) = true
  · obtain ⟨hm, hanswer⟩ := handle_of_enabled hon call (D.config (D.replica w)) (D.replica w) reply
      ⟨m₀, W⟩
    rw [if_pos hon] at hresponse
    exact ⟨hresponse.1.trans hm.symm, by rw [hresponse.2, hresponse.1, ← hanswer]⟩
  · have hsame : alone = (⟨m₀, W⟩, .ok .notFound) :=
      handle_of_disabled (by simpa using hon) _ _ _ _ _
    rw [if_neg hon] at hresponse
    rw [hsame]
    exact ⟨hresponse.1, by rw [hresponse.2]⟩

/-- Both replicas are asked for something at once, the first one to fail every request. -/
def failureBegins : List (Bool × ServerAct) :=
  [(true, .take (.segment "ab")), (false, .take (.admin (.set { errorRate := some (.fin 7) })))]

/-- The second one goes on for a while, then the first one to its end. -/
def failureEnds : List (Bool × ServerAct) :=
  List.replicate 3 (true, .go calm) ++ List.replicate 18 (false, .go calm)

/-- The update does what it does alone. -/
theorem endpoint_sequential_failure : ∃ s s' : Server Bool Bool,
    run (Pool.step (serverStep lab)) (boot lab fun _ => 0) failureBegins = some s ∧
      run (Pool.step (serverStep lab)) s failureEnds = some s' ∧
      s'.shared.chaos false =
        ChaosModule.init.call (.update { errorRate := some (.fin 7) }) := by
  obtain ⟨s, hs, hobs⟩ := Option.map_eq_some_iff.1 (show
    (run (Pool.step (serverStep lab)) (boot lab fun _ => 0) failureBegins).map (fun s =>
      (run (Pool.step (serverStep lab)) s failureEnds).map fun s' =>
        (s'.thread false).answer.isSome) = some (some true) by decide +kernel)
  obtain ⟨s', hs', hanswer⟩ := Option.map_eq_some_iff.1 hobs
  obtain ⟨last, hlast⟩ := Option.isSome_iff_exists.1 hanswer
  have hbegin : s.thread false = .admin (.set { errorRate := some (.fin 7) }) ∧
      s.shared.chaos false = ChaosModule.init := by
    obtain ⟨s₁, hsegment, hrest⟩ := (run_cons_eq_some _).1 hs
    obtain ⟨s₂, htake, hnil⟩ := (run_cons_eq_some _).1 hrest
    obtain rfl := Option.some.inj hnil
    refine ⟨thread_of_take htake, ?_⟩
    obtain rfl := Option.some.inj hsegment
    obtain rfl := Option.some.inj htake
    rfl
  have hclear : ∀ e ∈ failureEnds, KeepsClear lab false e := by
    simp [failureEnds, KeepsClear, lab, ServerAct.isGo, ServerAct.update]
  have hother : ∀ v, lab.replica v = lab.replica false → v ≠ false → (s.thread v).updates = false :=
    fun v hv hne => absurd hv hne
  have halone := (endpoint_sequential hbegin.1 hother hclear hs' (Handling.answer_eq_some.1 hlast)
    (.answers true) s.shared.world).1
  have hchaos : s.shared.chaos (lab.replica false) = ChaosModule.init := hbegin.2
  rw [(handle_of_enabled (by decide +kernel) _ _ _ _ _).1, hchaos] at halone
  exact ⟨s, s', hs, hs', halone⟩

/-! ## Resets -/

/-- The attributes of `ChaosState()`. -/
abbrev chaosDefaults (f : ChaosField) : f.Value := ChaosModule.init.value f

/-- Whatever the thread may still do to the chaos state is to reset it. -/
def Handling.OnlyResets : Handling → Prop
  | .admin (.set body) => body.reset = some true
  | .updating _ us => Schema.Restores chaosDefaults us
  | _ => True

/-- The thread will still reset attribute `f`. -/
def Handling.WillReset (f : ChaosField) : Handling → Prop
  | .admin (.set body) => body.reset = some true
  | .updating _ us => Op.assign f (chaosDefaults f) ∈ us
  | _ => False

/-- The step takes up no other update than a reset. -/
def ServerAct.OnlyResets (a : ServerAct) : Prop :=
  ∀ body, a.update = some body → body.reset = some true

omit [DecidableEq ρ] in
/-- An access of a thread that only resets. -/
theorem resets_advance {m m' : ChaosModule} {us us' : List (Op ChaosField.Value)}
    (hus : Schema.Restores chaosDefaults us) (h : chaosSchema.advance m us = (m', us')) :
    Schema.Restores chaosDefaults us' ∧
      (∀ f, m.value f = chaosDefaults f → m'.value f = chaosDefaults f) ∧
      ∀ f, Op.assign f (chaosDefaults f) ∈ us →
        m'.value f = chaosDefaults f ∨ Op.assign f (chaosDefaults f) ∈ us' := by
  have hrestores := hus.advance (S := chaosSchema) m
  have hvalue := fun f => hus.value_advance (S := chaosSchema) (m := m) (f := f)
  have hassign : ∀ f, Op.assign f (chaosDefaults f) ∈ us →
      (chaosSchema.advance m us).1.value f = chaosDefaults f ∨
        Op.assign f (chaosDefaults f) ∈ (chaosSchema.advance m us).2 :=
    fun _ => Schema.assign_advance
  rw [h] at hrestores hvalue hassign
  exact ⟨hrestores, hvalue, hassign⟩

/-- `reset` assigns every attribute. -/
theorem restores_reset {body : ChaosUpdate} (hbody : body.reset = some true) :
    Schema.Restores chaosDefaults (chaosSchema.script body.call.call) ∧
      ∀ f, Op.assign f (chaosDefaults f) ∈ chaosSchema.script body.call.call := by
  have hcall : body.call = .reset := if_pos hbody
  rw [hcall]
  exact Schema.restores_script (fun f => by cases f <;> rfl) rfl

/-- What a thread does that only resets. -/
theorem onlyResets_serverStep {a : ServerAct} (hh : h.OnlyResets) (ha : a.OnlyResets)
    (hstep : serverStep D w M h a = some (M', h')) :
    h'.OnlyResets ∧
      (∀ f, (M.chaos (D.replica w)).value f = chaosDefaults f →
        (M'.chaos (D.replica w)).value f = chaosDefaults f) ∧
      (D.ChaosOn (D.replica w) → ∀ f, h.WillReset f →
        (M'.chaos (D.replica w)).value f = chaosDefaults f ∨ h'.WillReset f) := by
  rcases serverStep_cases hstep with ⟨last, request, rfl, rfl, rfl, rfl⟩ | ⟨env, rfl, heff⟩
  · refine ⟨?_, fun _ hf => hf, fun _ _ hf => hf.elim⟩
    cases request with
    | segment | healthz | invalid => trivial
    | admin call =>
      cases call with
      | read => trivial
      | set body => exact ha body rfl
  cases heff with
  | chaosRead id read =>
    refine ⟨?_, fun _ hf => hf, fun _ _ hf => hf.elim⟩
    cases read with
    | latencyTest | rateTest | bypass => trivial
    | latencySleep =>
      simp only [afterChaosRead]
      split <;> trivial
    | rateDraw =>
      simp only [afterChaosRead]
      split <;> trivial
  | returned =>
    unfold afterLookup
    split <;> exact ⟨trivial, fun _ hf => hf, fun _ _ hf => hf.elim⟩
  | countRequest o => cases o <;> exact ⟨trivial, fun _ hf => hf, fun _ _ hf => hf.elim⟩
  | beginUpdate body m us hon hchaos =>
    obtain ⟨hscript, hassign⟩ := restores_reset hh
    obtain ⟨hus, hvalue, hleft⟩ := resets_advance hscript (Option.some.inj hchaos)
    simp only [Shared.chaos_setChaos, Function.update_self]
    exact ⟨hus, hvalue, fun _ f _ => hleft f (hassign f)⟩
  | update body us us' m hne hchaos =>
    cases us with
    | nil => exact absurd rfl hne
    | cons o os =>
      obtain ⟨hus, hvalue, hleft⟩ := resets_advance hh (Option.some.inj hchaos)
      simp only [Shared.chaos_setChaos, Function.update_self]
      exact ⟨hus, hvalue, fun _ f => hleft f⟩
  | notFound call hoff =>
    exact ⟨trivial, fun _ hf => hf, fun hon => by simp [Rollout.ChaosOn, hoff] at hon⟩
  | updated => exact ⟨trivial, fun _ hf => hf, fun _ _ hf => by cases hf⟩
  | inflightInc | call | cache | raised | originFetch | observe | observeExemplar | refused |
    refusedLate | observeAgain | finish | healthz | unprocessable | readChaos | copy | answer |
    flush => exact ⟨trivial, fun _ hf => hf, fun _ _ hf => hf.elim⟩

/-- Every update of replica `r` that is in progress is a reset, and its attributes have been reset
or will be. -/
structure Resetting (D : Rollout ω ρ) (r : ρ) (s : Server ω ρ) : Prop where
  only : ∀ w, D.replica w = r → (s.thread w).OnlyResets
  reset : ∀ f, (s.shared.chaos r).value f = chaosDefaults f ∨
    ∃ w, D.replica w = r ∧ (s.thread w).WillReset f

theorem onlyResets_of_updates_eq_false {h : Handling} (hh : h.updates = false) : h.OnlyResets := by
  cases h with
  | admin call =>
    cases call with
    | read => trivial
    | set => cases hh
  | updating body us =>
    obtain rfl : us = [] := by simpa [Handling.updates] using hh
    exact nofun
  | _ => trivial

theorem not_willReset_of_updates_eq_false {h : Handling} (hh : h.updates = false) (f : ChaosField) :
    ¬ h.WillReset f := by
  cases h with
  | admin call =>
    cases call with
    | read => exact id
    | set => cases hh
  | updating body us =>
    obtain rfl : us = [] := by simpa [Handling.updates] using hh
    exact List.not_mem_nil
  | _ => exact id

/-- No thread of replica `r` takes up another update than a reset. -/
def KeepsReset (D : Rollout ω ρ) (r : ρ) (e : ω × ServerAct) : Prop :=
  D.replica e.1 = r → e.2.OnlyResets

section Runs

variable [DecidableEq ω] {r : ρ} {s s' : Server ω ρ} {e : ω × ServerAct}

theorem onlyResets_step (hs : ∀ w, D.replica w = r → (s.thread w).OnlyResets)
    (he : KeepsReset D r e) (hstep : Pool.step (serverStep D) s e = some s') :
    ∀ w, D.replica w = r → (s'.thread w).OnlyResets := by
  obtain ⟨v, a⟩ := e
  obtain ⟨M', h', hv, rfl⟩ := Pool.step_eq_some.1 hstep
  intro w hw
  rcases eq_or_ne w v with rfl | hne
  · simpa using (onlyResets_serverStep (hs w hw) (he hw) hv).1
  · simpa [hne] using hs w hw

theorem Resetting.step (hon : D.ChaosOn r) (hs : Resetting D r s) (he : KeepsReset D r e)
    (hstep : Pool.step (serverStep D) s e = some s') : Resetting D r s' := by
  refine ⟨onlyResets_step hs.only he hstep, fun f => ?_⟩
  obtain ⟨v, a⟩ := e
  obtain ⟨M', h', hv, rfl⟩ := Pool.step_eq_some.1 hstep
  by_cases hr : D.replica v = r
  · subst hr
    obtain ⟨-, hvalue, hwill⟩ := onlyResets_serverStep (hs.only v rfl) (he rfl) hv
    rcases hs.reset f with hf | ⟨w, hw, hf⟩
    · exact Or.inl (hvalue f hf)
    rcases eq_or_ne w v with rfl | hne
    · rcases hwill hon f hf with hf | hf
      · exact Or.inl hf
      · exact Or.inr ⟨w, rfl, by simpa using hf⟩
    · exact Or.inr ⟨w, hw, by simpa [hne] using hf⟩
  · have hM : M'.chaos r = s.shared.chaos r := chaos_of_replica_ne hr hv
    rcases hs.reset f with hf | ⟨w, hw, hf⟩
    · exact Or.inl (by rw [hM]; exact hf)
    · have hne : w ≠ v := fun heq => hr (heq ▸ hw)
      exact Or.inr ⟨w, hw, by simpa [hne] using hf⟩

/-- In the run of `es` from `s` to `s'`, replica `r` has been reset, and not been updated
otherwise. -/
structure IsReset (D : Rollout ω ρ) (r : ρ) (s : Server ω ρ) (es : List (ω × ServerAct))
    (s' : Server ω ρ) : Prop where
  run : run (Pool.step (serverStep D)) s es = some s'
  before : ∀ w, D.replica w = r → (s.thread w).updates = false
  only : ∀ e ∈ es, KeepsReset D r e
  reset : ∃ e ∈ es, D.replica e.1 = r ∧ ∃ body, e.2.update = some body
  after : ∀ w, D.replica w = r → (s'.thread w).updates = false

/-- It then has the chaos state of a new process. -/
theorem IsReset.value {t : ρ → ℚ} {es : List (ω × ServerAct)} (h : IsReset D r s es s')
    (hs : Reachable (Pool.step (serverStep D)) (boot D t) s) (f : ChaosField) :
    (s'.shared.chaos r).value f = chaosDefaults f := by
  by_cases hon : D.ChaosOn r
  · obtain ⟨e, he, hr, body, hbody⟩ := h.reset
    obtain ⟨pre, post, rfl⟩ := List.append_of_mem he
    obtain ⟨s₁, hpre, hrun⟩ := (run_append_eq_some _).1 h.run
    obtain ⟨s₂, hstep, hpost⟩ := (run_cons_eq_some _).1 hrun
    have hbefore : ∀ w, D.replica w = r → (s.thread w).OnlyResets := fun w hw =>
      onlyResets_of_updates_eq_false (h.before w hw)
    have key : ∀ (s : Server ω ρ) e s', (∀ w, D.replica w = r → (s.thread w).OnlyResets) →
        KeepsReset D r e → Pool.step (serverStep D) s e = some s' →
        ∀ w, D.replica w = r → (s'.thread w).OnlyResets :=
      fun _ _ _ hs he hstep => onlyResets_step hs he hstep
    have honly := (along_of_forall fun e he => h.only e (List.mem_append_left _ he)).invariant key
      hbefore hpre
    obtain ⟨w, a⟩ := e
    obtain rfl := update_eq_some.1 hbody
    have hthread : s₂.thread w = .admin (.set body) := thread_of_take hstep
    have hstart : Resetting D r s₂ :=
      ⟨onlyResets_step honly (h.only _ he) hstep, fun f =>
        Or.inr ⟨w, hr, by rw [hthread]; exact h.only _ he hr body hbody⟩⟩
    have hkeeps : ∀ e ∈ post, KeepsReset D r e := fun e he =>
      h.only e (List.mem_append_right _ (List.mem_cons_of_mem _ he))
    have hend : Resetting D r s' := (along_of_forall hkeeps).invariant
      (fun _ _ _ hs he hstep => hs.step hon he hstep) hstart hpost
    rcases hend.reset f with hf | ⟨w, hw, hf⟩
    · exact hf
    · exact absurd hf (not_willReset_of_updates_eq_false (h.after w hw) f)
  · obtain ⟨es₀, hes₀⟩ := hs
    obtain ⟨q, -, hM, -⟩ := refines_fleet ⟨es₀ ++ es, (run_append_eq_some _).2 ⟨s, hes₀, h.run⟩⟩
    rw [hM.chaosOff r hon]

/-- The attributes of replica `r` are reset, and nothing but resets is in progress. -/
structure IsDefault (D : Rollout ω ρ) (r : ρ) (s : Server ω ρ) : Prop where
  only : ∀ w, D.replica w = r → (s.thread w).OnlyResets
  value : ∀ f, (s.shared.chaos r).value f = chaosDefaults f

theorem IsDefault.step (hs : IsDefault D r s) (he : KeepsReset D r e)
    (hstep : Pool.step (serverStep D) s e = some s') : IsDefault D r s' := by
  refine ⟨onlyResets_step hs.only he hstep, fun f => ?_⟩
  obtain ⟨v, a⟩ := e
  obtain ⟨M', h', hv, rfl⟩ := Pool.step_eq_some.1 hstep
  by_cases hr : D.replica v = r
  · subst hr
    exact (onlyResets_serverStep (hs.only v rfl) (he rfl) hv).2.1 f (hs.value f)
  · exact (congrArg (fun m : ChaosModule => m.value f) (chaos_of_replica_ne hr hv)).trans (hs.value f)

end Runs

end EdgeCache.Service
