import EdgeCache.Service.Answers

/-!
# Every request is answered

No step of a handler can be blocked, by Redis, by an open breaker or by another handler, and each
one brings it closer to its answer: `Handling.rank` bounds the steps that it has yet to take. So a
request takes at most 28 steps of its thread, however many others are in progress and whatever they
are at (`request_answered`), and a health check takes four.
-/

namespace EdgeCache.Service

open Cache PartialUpdate Transition

/-- The accesses that are left of a statement of a chaos call. -/
def opRank : Op ChaosField.Value → ℕ
  | .assign _ _ => 1
  | .clamp _ => 2
  | .store _ _ => 1
  | .publish _ => 2
  | .expose _ _ => 1

def opsRank (us : List (Op ChaosField.Value)) : ℕ := (us.map opRank).sum

/-- The steps after `_observe`. -/
def Observation.rank : Observation → ℕ
  | .health _ => 0
  | _ => 1

/-- A bound on the steps that a handler has yet to take before its request is answered. -/
def Handling.rank : Handling → ℕ
  | .idle _ => 0
  | .segment _ => 28
  | .chaos _ .latencyTest => 27
  | .chaos _ .latencySleep => 26
  | .chaos _ .rateTest => 25
  | .chaos _ .rateDraw => 24
  | .chaos _ .bypass => 23
  | .cache _ t => 6 + t.rank
  | .originFetch _ _ => 5
  | .observe o => 3 + o.rank
  | .observeAgain o _ => 2 + o.rank
  | .countRequest o => 1 + o.rank
  | .finish _ _ => 1
  | .healthz => 4
  | .admin _ => 21
  | .invalid => 1
  | .updating _ us => 5 + opsRank us
  | .asdict _ _ rest => 1 + rest.length

/-! ## Each step counts -/

theorem opsRank_advance (m : ChaosModule) (o : Op ChaosField.Value)
    (os : List (Op ChaosField.Value)) :
    opsRank (chaosSchema.advance m (o :: os)).2 < opsRank (o :: os) := by
  cases o <;> simp [opsRank, Schema.advance, Schema.access, opRank]

/-- A chaos call makes at most 15 accesses. -/
theorem opsRank_script (c : Call chaosSchema) : opsRank (chaosSchema.script c) ≤ 15 := by
  have hassign : ∀ f, opsRank ([f].filterMap fun f => (c.given f).map (Op.assign f)) ≤ 1 := fun f => by
    cases hf : c.given f <;> simp [opsRank, opRank, hf]
  have happend : ∀ us vs, opsRank (us ++ vs) = opsRank us + opsRank vs := by simp [opsRank]
  have hclamp : opsRank (if c.clamps then chaosSchema.fields.map Op.clamp else []) ≤ 6 := by
    split <;> decide
  have hpublish : opsRank (chaosSchema.fields.map Op.publish) = 6 := rfl
  have h₁ := hassign .latencySeconds
  have h₂ := hassign .errorRate
  have h₃ := hassign .cacheBypass
  have hfields : chaosSchema.fields = [.latencySeconds] ++ [.errorRate] ++ [.cacheBypass] := rfl
  rw [Schema.script, happend, happend, hpublish]
  simp only [hfields, List.filterMap_append, happend] at hclamp ⊢
  omega

/-- The first one of them is made when it begins. -/
theorem opsRank_begin (m : ChaosModule) (c : Call chaosSchema) :
    opsRank (chaosSchema.advance m (chaosSchema.script c)).2 < 15 := by
  have hle := opsRank_script c
  cases hs : chaosSchema.script c with
  | nil => exact Nat.succ_pos 14
  | cons o os =>
    rw [hs] at hle
    exact (opsRank_advance m o os).trans_le hle

variable {ω ρ : Type*} [DecidableEq ρ]

theorem rank_segmentEffect {D : Deployment ω ρ} {r : ρ} {now : ℚ} {reply : Reply} {elapsed : ℚ}
    {W W' : World ρ} {t t' : Worker} (h : SegmentEffect D r now reply elapsed W t W' t') :
    t'.rank < t.rank := by
  have hpos : 0 < t.rank := by
    cases t with
    | resting => cases segmentStep_iff.2 h
    | lookup | reading | readingMemory | origin | writing | writingMemory => simp [Worker.rank]
  obtain ⟨W₁, t₁, h₁, hlt⟩ := exists_segmentEffect D r now reply elapsed W hpos
  obtain ⟨-, rfl⟩ :=
    Prod.mk.inj (Option.some.inj ((segmentStep_iff.2 h).symm.trans (segmentStep_iff.2 h₁)))
  exact hlt

variable {D : Rollout ω ρ} {w : ω} {M M' : Shared ρ} {h h' : Handling}

/-- **Each step of a handler brings it closer to its answer.** -/
theorem rank_serverEffect {env : Env} (heff : ServerEffect D w env M h M' h') :
    h'.rank < h.rank := by
  cases heff with
  | inflightInc | originFetch | finish | notFound | unprocessable | readChaos | updated | copy |
    answer | flush | healthz => simp [Handling.rank, Observation.rank, chaosSchema, opsRank]
  | chaosRead id read hne =>
    cases read with
    | latencyTest | rateTest =>
      simp only [afterChaosRead]
      split_ifs <;> simp [Handling.rank]
    | latencySleep =>
      simp only [afterChaosRead]
      split <;> simp [Handling.rank]
    | rateDraw =>
      simp only [afterChaosRead]
      split_ifs <;> simp [Handling.rank, Observation.rank]
    | bypass => exact absurd rfl hne
  | call id W t hW =>
    obtain ⟨-, -, -, rfl⟩ := fleetStep_getSegment.1 hW
    split <;> simp [Handling.rank, Worker.rank]
  | cache id t t' W hW =>
    obtain ⟨-, W₁, hseg, -⟩ := fleetStep_go.1 hW
    exact Nat.add_lt_add_left (rank_segmentEffect hseg) 6
  | raised => simp [Handling.rank, Worker.rank]
  | returned id id' result =>
    unfold afterLookup
    split <;> simp [Handling.rank, Worker.rank, Observation.rank]
  | observe | observeExemplar | refused | refusedLate | observeAgain =>
    simp only [Handling.rank]
    omega
  | countRequest o => cases o <;> simp [Handling.rank, Observation.rank, Observation.after]
  | beginUpdate body m us _ hstep =>
    have hlt := opsRank_begin (M.chaos (D.replica w)) body.call.call
    have hus : (chaosSchema.advance (M.chaos (D.replica w))
        (chaosSchema.script body.call.call)).2 = us := congrArg Prod.snd (Option.some.inj hstep)
    rw [hus] at hlt
    simp only [Handling.rank]
    omega
  | update body us us' m hne hstep =>
    cases us with
    | nil => exact absurd rfl hne
    | cons o os =>
      obtain ⟨-, rfl⟩ := Prod.mk.inj (Option.some.inj hstep)
      exact Nat.add_lt_add_left (opsRank_advance _ o os) 5

/-! ## No step can be blocked -/

/-- A handler can always go on, when the clock of its replica has not been turned back. -/
theorem exists_goStep {F : Prop} {t : Worker} (ht : h.Serves D F (D.replica w) t) (hpos : 0 < h.rank)
    (env : Env) (hnow : (M.world.proc (D.replica w)).clock ≤ env.now) :
    ∃ q, goStep D w env M h = some q := by
  cases h with
  | idle => cases hpos
  | segment | originFetch | observeAgain | countRequest | finish | healthz | invalid => exact ⟨_, rfl⟩
  | chaos id read =>
    cases read with
    | bypass =>
      have hcall := fleetStep_getSegment.2
        ⟨hnow, ⟨none, rfl⟩, rfl, rfl (a := if (M.chaos (D.replica w)).state.cacheBypass then
          Worker.origin id true else .lookup id)⟩
      exact ⟨_, map_step_eq_some.2 ⟨_, cacheStep_eq_some.2 ⟨_, hcall, rfl⟩, rfl⟩⟩
    | latencyTest | latencySleep | rateTest | rateDraw => exact ⟨_, rfl⟩
  | cache id t' =>
    have hgo : 0 < t'.rank → ∃ q, (cacheStep D w M t'
        ⟨env.now, .go env.reply env.fetchSeconds⟩).map (fun q => (q.1, Handling.cache id q.2)) =
          some q := fun hpos => by
      obtain ⟨W₁, t₁, hseg, -⟩ := exists_segmentEffect D.toDeployment (D.replica w) env.now env.reply
        env.fetchSeconds M.world hpos
      exact ⟨_, map_step_eq_some.2
        ⟨t₁, cacheStep_eq_some.2 ⟨_, fleetStep_go.2 ⟨hnow, W₁, hseg, rfl⟩, rfl⟩, rfl⟩⟩
    obtain ⟨-, habout⟩ := ht
    cases t' with
    | resting last =>
      obtain ⟨e | result, rfl⟩ := habout
      · exact ⟨_, rfl⟩
      · exact ⟨_, rfl⟩
    | lookup | reading | readingMemory | origin | writing | writingMemory =>
      exact hgo (by simp [Worker.rank])
  | observe o =>
    simp only [goStep]
    split <;> exact ⟨_, rfl⟩
  | admin call =>
    simp only [goStep]
    split_ifs
    · cases call with
      | read => exact ⟨_, rfl⟩
      | set body => exact ⟨_, rfl⟩
    · exact ⟨_, rfl⟩
  | updating body us => cases us <;> exact ⟨_, rfl⟩
  | asdict call state rest =>
    cases rest with
    | cons => exact ⟨_, rfl⟩
    | nil =>
      cases call with
      | read => exact ⟨_, rfl⟩
      | set body =>
        simp only [goStep]
        split_ifs
        · have hflush := fleetStep_flush.2
            ⟨hnow, ⟨none, rfl⟩, rfl (a := (M.world.flush (D.config (D.replica w)) (D.replica w)
              env.reply).tick (D.replica w) env.now), rfl⟩
          exact ⟨_, Option.map_eq_some_iff.2 ⟨_, cacheStep_eq_some.2 ⟨_, hflush, rfl⟩, rfl⟩⟩
        · exact ⟨_, rfl⟩

theorem rank_go {a : ServerAct} (ha : a.isGo = true)
    (hstep : serverStep D w M h a = some (M', h')) : h'.rank < h.rank := by
  rcases serverStep_cases hstep with ⟨_, _, rfl, -⟩ | ⟨env, -, heff⟩
  · cases ha
  · exact rank_serverEffect heff

/-- The steps that a request takes at most. -/
def Request.steps : Request → ℕ
  | .segment _ => 28
  | .healthz => 4
  | .admin _ => 21
  | .invalid => 1

theorem rank_start (request : Request) : request.start.rank = request.steps := by
  cases request <;> rfl

theorem eq_idle_of_rank (hrank : h.rank = 0) : ∃ last, h = .idle last := by
  cases h with
  | idle last => exact ⟨last, rfl⟩
  | chaos id read => cases read <;> simp [Handling.rank] at hrank
  | _ => simp [Handling.rank] at hrank

variable [DecidableEq ω]

/-- **Every request is answered.** In every run of the service: a thread that is in a request can go
on, whatever Redis does and whatever the other threads are at; and a request takes at most 28 steps
of its thread, a health check four, after which it has been answered. -/
theorem request_answered {t : ρ → ℚ} {s : Server ω ρ}
    (h : Reachable (Pool.step (serverStep D)) (boot D t) s) (w : ω) :
    ((∀ last, s.thread w ≠ .idle last) → ∀ env : Env,
      (s.shared.world.proc (D.replica w)).clock ≤ env.now →
      ∃ s', Pool.step (serverStep D) s (w, .go env) = some s') ∧
    ∀ (request : Request) (s' : Server ω ρ) (es : List (ω × ServerAct)),
      s.thread w = request.start → (∀ e ∈ es, e.1 = w → e.2.isGo = true) →
      run (Pool.step (serverStep D)) s es = some s' →
      (es.countP fun e => e.1 = w) ≤ request.steps ∧
        ((es.countP fun e => e.1 = w) = request.steps → ∃ last, s'.thread w = .idle last) := by
  constructor
  · intro hw env hnow
    obtain ⟨q, -, -, hruns⟩ := refines_fleet h
    have hpos : 0 < (s.thread w).rank := Nat.pos_of_ne_zero fun hrank => by
      obtain ⟨last, hlast⟩ := eq_idle_of_rank hrank
      exact hw last hlast
    obtain ⟨⟨M', h'⟩, hstep⟩ := exists_goStep (hruns w) hpos env hnow
    exact ⟨_, Pool.step_eq_some.2 ⟨M', h', hstep, rfl⟩⟩
  · intro request s' es hw hgo hrun
    have hle : (es.countP fun e => e.1 = w) + (s'.thread w).rank ≤ (s.thread w).rank :=
      Pool.countP_add_rank_le (P := fun a => a.isGo = true) (fun ha he => rank_go ha he) hgo hrun
    rw [hw, rank_start] at hle
    exact ⟨by omega, fun heq => eq_idle_of_rank (by omega)⟩

/-- A health check begins while another thread waits for Redis. -/
def checkBegins : List (Bool × ServerAct) :=
  handle false (.segment "ab") 6 ++ [(true, .take .healthz)]

/-- It is answered before that thread makes another step, in three steps; the fourth would be that
of an exemplar that is refused. -/
theorem request_answered_check : ∃ s s', Reachable (Pool.step (serverStep lab))
      (boot lab fun _ => 0) s ∧
    run (Pool.step (serverStep lab)) s (List.replicate 3 (true, .go calm)) = some s' ∧
      (s'.thread true).answer = some (.healthz ⟨.redis, true⟩) ∧ 3 ≤ Request.healthz.steps := by
  obtain ⟨s, hs, hobs⟩ := Option.map_eq_some_iff.1 (show
    (run (Pool.step (serverStep lab)) (boot lab fun _ => 0) checkBegins).map (fun s =>
      (run (Pool.step (serverStep lab)) s
        (List.replicate 3 (true, .go calm))).map fun s' => (s'.thread true).answer) =
      some (some (some (.healthz ⟨.redis, true⟩))) by decide +kernel)
  obtain ⟨s', hs', hanswer⟩ := Option.map_eq_some_iff.1 hobs
  have hstart : s.thread true = Request.healthz.start := by
    obtain ⟨s₁, -, hlast⟩ := (run_append_eq_some _).1 hs
    obtain ⟨s₂, htake, hrest⟩ := (run_cons_eq_some _).1 hlast
    obtain rfl := Option.some.inj hrest
    exact thread_of_take htake
  refine ⟨s, s', ⟨checkBegins, hs⟩, hs', hanswer, ?_⟩
  have := ((request_answered ⟨checkBegins, hs⟩ true).2 .healthz s' _ hstart
    (by simp [ServerAct.isGo]) hs').1
  simpa using this

end EdgeCache.Service
