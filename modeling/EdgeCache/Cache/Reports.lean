import EdgeCache.Cache.Replica

/-!
# What the calls report of Redis

A call behind the breaker reports one outcome: to the breaker, to `_last_redis_ok`, and to
`redis_up`. As long as the calls of the client raise, none reports a success but those that Redis
has answered before, so `redis_up` falls to 0 at the first report, and stays there
(`reportDown_guardStep`).

When they return, a call that has been admitted ends with a success, which closes the breaker
(`calling_guardStep`). Until then the breaker may refuse calls, which report that Redis is down.
After that none does, so `redis_up` rises to 1 at the next report, and stays there
(`reportUp_guardStep`).

`guard_segmentEffect` says that the workers of a replica take such steps and no others.
-/

namespace EdgeCache.Cache

open Breaker Transition

/-! ## One call -/

section Guard

variable {ν μ : Type*} {cfg : Config} {now : ℚ} {p p' : Proc} {g g' : Guard ν} {answer : Option ν}

/-- What the call is going to report on `redis_up`, when that is settled. -/
def Guard.report : Guard ν → Option Bool
  | .success _ => some true
  | .failure => some false
  | .setOk o => some o.ok
  | .setUp o => some o.ok
  | _ => none

/-- It has been reported. -/
def Guard.hasReported : Guard ν → Bool
  | .countError => true
  | .done _ => true
  | _ => false

theorem Guard.report_of_rank (hg : g.rank = 0) : g.report = none := by
  rcases g.rank_pos_or_done with hpos | ⟨o, rfl⟩
  · omega
  · rfl

theorem Guard.hasReported_of_rank (hg : g.rank = 0) : g.hasReported = true := by
  rcases g.rank_pos_or_done with hpos | ⟨o, rfl⟩
  · omega
  · rfl

theorem Guard.calling_of_rank (hg : g.rank = 0) : g.calling = false := by
  rcases g.rank_pos_or_done with hpos | ⟨o, rfl⟩
  · omega
  · rfl

/-- While the client raises, a call reports no success, unless it has been settled before. -/
theorem reportDown_guardStep (hanswer : g = .redis → answer = none) (hg : g.report ≠ some true)
    (h : guardStep cfg now answer p g = some (p', g')) :
    g'.report ≠ some true ∧
      (p'.redisUp = 0 ∨ p'.redisUp = p.redisUp ∧ g'.hasReported = g.hasReported) := by
  cases g with
  | allow =>
    simp only [guardStep] at h
    split_ifs at h
    · split at h <;> obtain ⟨rfl, rfl⟩ := Prod.mk.inj (Option.some.inj h) <;>
        exact ⟨by rintro ⟨⟩, Or.inr ⟨rfl, rfl⟩⟩
    · obtain ⟨rfl, rfl⟩ := Prod.mk.inj (Option.some.inj h)
      exact ⟨by rintro ⟨⟩, Or.inr ⟨rfl, rfl⟩⟩
  | redis =>
    obtain rfl := hanswer rfl
    obtain ⟨rfl, rfl⟩ := Prod.mk.inj (Option.some.inj h)
    exact ⟨by rintro ⟨⟩, Or.inr ⟨rfl, rfl⟩⟩
  | failure =>
    obtain ⟨rfl, rfl⟩ := Prod.mk.inj (Option.some.inj h)
    exact ⟨by rintro ⟨⟩, Or.inr ⟨rfl, rfl⟩⟩
  | success => exact absurd rfl hg
  | setOk o =>
    obtain ⟨rfl, rfl⟩ := Prod.mk.inj (Option.some.inj h)
    exact ⟨hg, Or.inr ⟨rfl, rfl⟩⟩
  | setUp o =>
    obtain ⟨rfl, rfl⟩ := Prod.mk.inj (Option.some.inj h)
    refine ⟨by cases o <;> rintro ⟨⟩, Or.inl ?_⟩
    have hok : o.ok ≠ true := fun hok => hg (congrArg some hok)
    simp [hok]
  | countError =>
    obtain ⟨rfl, rfl⟩ := Prod.mk.inj (Option.some.inj h)
    exact ⟨by rintro ⟨⟩, Or.inr ⟨rfl, rfl⟩⟩
  | done => cases h

/-- While the client returns and the breaker has recovered, a call reports no failure, unless it has
been settled before. -/
theorem reportUp_guardStep (hanswer : g = .redis → answer ≠ none) (hp : Recovered p.breaker)
    (hg : g.report ≠ some false) (h : guardStep cfg now answer p g = some (p', g')) :
    Recovered p'.breaker ∧ g'.report ≠ some false ∧
      (p'.redisUp = 1 ∨ p'.redisUp = p.redisUp ∧ g'.hasReported = g.hasReported) := by
  cases g with
  | allow =>
    simp only [guardStep, CircuitBreaker.allow_of_closed _ _ _ hp.1] at h
    split_ifs at h <;> obtain ⟨rfl, rfl⟩ := Prod.mk.inj (Option.some.inj h) <;>
      exact ⟨hp, by rintro ⟨⟩, Or.inr ⟨rfl, rfl⟩⟩
  | redis =>
    cases answer with
    | none => exact absurd rfl (hanswer rfl)
    | some v =>
      obtain ⟨rfl, rfl⟩ := Prod.mk.inj (Option.some.inj h)
      exact ⟨hp, by rintro ⟨⟩, Or.inr ⟨rfl, rfl⟩⟩
  | success v =>
    obtain ⟨rfl, rfl⟩ := Prod.mk.inj (Option.some.inj h)
    exact ⟨recovered_recordSuccess _, by rintro ⟨⟩, Or.inr ⟨rfl, rfl⟩⟩
  | failure => exact absurd rfl hg
  | setOk o =>
    obtain ⟨rfl, rfl⟩ := Prod.mk.inj (Option.some.inj h)
    exact ⟨hp, hg, Or.inr ⟨rfl, rfl⟩⟩
  | setUp o =>
    obtain ⟨rfl, rfl⟩ := Prod.mk.inj (Option.some.inj h)
    have hok : o.ok = true := by
      cases hok : o.ok with
      | true => rfl
      | false => exact absurd (congrArg some hok) hg
    exact ⟨hp, by cases o <;> rintro ⟨⟩, Or.inl (by simp [hok])⟩
  | countError =>
    obtain ⟨rfl, rfl⟩ := Prod.mk.inj (Option.some.inj h)
    exact ⟨hp, by rintro ⟨⟩, Or.inr ⟨rfl, rfl⟩⟩
  | done => cases h

/-- While the client returns, no call fails any more, so that the breaker stays recovered once it
is, and a call that has been admitted makes it so. -/
theorem calling_guardStep (hanswer : g = .redis → answer ≠ none) (hg : g ≠ .failure)
    (h : guardStep cfg now answer p g = some (p', g')) :
    g' ≠ .failure ∧ (Recovered p.breaker → Recovered p'.breaker) ∧
      (g.calling = true → g'.calling = true ∨ Recovered p'.breaker) := by
  cases g with
  | allow =>
    simp only [guardStep] at h
    refine ⟨?_, fun hp => ?_, by rintro ⟨⟩⟩
    · split_ifs at h
      · split at h <;> obtain ⟨rfl, rfl⟩ := Prod.mk.inj (Option.some.inj h) <;> rintro ⟨⟩
      · obtain ⟨rfl, rfl⟩ := Prod.mk.inj (Option.some.inj h)
        rintro ⟨⟩
    · rw [CircuitBreaker.allow_of_closed _ _ _ hp.1] at h
      split_ifs at h <;> obtain ⟨rfl, rfl⟩ := Prod.mk.inj (Option.some.inj h) <;> exact hp
  | redis =>
    cases answer with
    | none => exact absurd rfl (hanswer rfl)
    | some v =>
      obtain ⟨rfl, rfl⟩ := Prod.mk.inj (Option.some.inj h)
      exact ⟨by rintro ⟨⟩, id, fun _ => Or.inl rfl⟩
  | success v =>
    obtain ⟨rfl, rfl⟩ := Prod.mk.inj (Option.some.inj h)
    have hrecovered := recovered_recordSuccess p.breaker
    exact ⟨by rintro ⟨⟩, fun _ => hrecovered, fun _ => Or.inr hrecovered⟩
  | failure => exact absurd rfl hg
  | setUp o =>
    obtain ⟨rfl, rfl⟩ := Prod.mk.inj (Option.some.inj h)
    exact ⟨by cases o <;> rintro ⟨⟩, id, by rintro ⟨⟩⟩
  | setOk o | countError =>
    obtain ⟨rfl, rfl⟩ := Prod.mk.inj (Option.some.inj h)
    exact ⟨by rintro ⟨⟩, id, by rintro ⟨⟩⟩
  | done => cases h

/-- A breaker that is not closed was opened by time `B`, unless a call fails later than that. -/
theorem openedAt_guardStep {B : ℚ} (hB : g = .failure → now ≤ B)
    (hp : p.breaker.state ≠ .closed → p.breaker.openedAt ≤ B)
    (h : guardStep cfg now answer p g = some (p', g')) :
    p'.breaker.state ≠ .closed → p'.breaker.openedAt ≤ B := by
  cases g with
  | allow =>
    simp only [guardStep] at h
    split_ifs at h
    · split at h <;> next hb =>
        obtain ⟨rfl, rfl⟩ := Prod.mk.inj (Option.some.inj h)
        simp only [CircuitBreaker.allow] at hb
        split at hb
        · obtain ⟨-, rfl⟩ := Prod.mk.inj hb
          exact hp
        · next hopened =>
          have hle := hp (by simp [hopened])
          split_ifs at hb <;> obtain ⟨-, rfl⟩ := Prod.mk.inj hb <;> exact fun _ => hle
        · split_ifs at hb <;> obtain ⟨-, rfl⟩ := Prod.mk.inj hb <;> exact hp
    · obtain ⟨rfl, rfl⟩ := Prod.mk.inj (Option.some.inj h)
      exact hp
  | redis =>
    cases answer <;> obtain ⟨rfl, rfl⟩ := Prod.mk.inj (Option.some.inj h) <;> exact hp
  | success v =>
    obtain ⟨rfl, rfl⟩ := Prod.mk.inj (Option.some.inj h)
    exact fun hstate => absurd (CircuitBreaker.state_recordSuccess _) hstate
  | failure =>
    obtain ⟨rfl, rfl⟩ := Prod.mk.inj (Option.some.inj h)
    rcases CircuitBreaker.recordFailure_cases cfg.breaker now p.breaker with
      ⟨-, -, hopened⟩ | ⟨-, -, hstate, hopened⟩
    · exact fun _ => hopened.trans_le (hB rfl)
    · exact fun hne => hopened.trans_le (hp (hstate ▸ hne))
  | setOk | setUp | countError =>
    obtain ⟨rfl, rfl⟩ := Prod.mk.inj (Option.some.inj h)
    exact hp
  | done => cases h

/-- A call that comes to the breaker after the cooldown is admitted, unless a probe is out. -/
theorem calling_of_allow (hw : WellFormed cfg.breaker p.breaker)
    (helapsed : p.breaker.state = .opened → cfg.breaker.Elapsed p.breaker.openedAt now)
    (h : guardStep cfg now answer p .allow = some (p', g')) :
    g'.calling = true ∨ (cfg.cbEnabled = true ∧ p.breaker.state = .halfOpen) := by
  simp only [guardStep] at h
  split_ifs at h with henabled
  · rcases hw.allow_cases now with ⟨-, ha⟩ | ⟨-, -, ha⟩ | ⟨hs, hne, -⟩ | ⟨hs, -⟩
    · rw [ha] at h
      obtain ⟨-, rfl⟩ := Prod.mk.inj (Option.some.inj h)
      exact Or.inl rfl
    · rw [ha] at h
      obtain ⟨-, rfl⟩ := Prod.mk.inj (Option.some.inj h)
      exact Or.inl rfl
    · exact absurd (helapsed hs) hne
    · exact Or.inr ⟨henabled, hs⟩
  · obtain ⟨-, rfl⟩ := Prod.mk.inj (Option.some.inj h)
    exact Or.inl rfl

end Guard

/-! ## A worker -/

variable {ω ρ : Type*} [DecidableEq ρ] {D : Deployment ω ρ} {W W' : World ρ} {r : ρ}
  {now elapsed : ℚ} {reply : Reply} {t t' : Worker}

/-- The effect of a step of a worker on its process and on its call behind the breaker: it is
between two calls, or takes a step of one, whose client goes as `reply` says. -/
inductive GuardEffect (c : Config) (now : ℚ) (reply : Reply) (p : Proc) :
    Guard Unit → Proc → Guard Unit → Prop
  | outside (g g' : Guard Unit) : g.rank = 0 → g'.rank = 0 ∨ g' = .allow →
      GuardEffect c now reply p g { p with clock := now } g'
  | step (g g' : Guard Unit) (answer : Option Unit) (p' : Proc) :
      (g = .redis → (answer = none ↔ ∃ applied, reply = .raises applied)) →
      guardStep c now answer p g = some (p', g') →
      GuardEffect c now reply p g { p' with clock := now } g'

namespace GuardEffect

variable {c : Config} {p p' : Proc} {g g' : Guard Unit}

/-- `reportDown_guardStep`, also between two calls. -/
theorem reportDown {applied : Bool} (hg : g.report ≠ some true)
    (h : GuardEffect c now (.raises applied) p g p' g') :
    g'.report ≠ some true ∧ (p'.redisUp = 0 ∨
      p'.redisUp = p.redisUp ∧ (g.hasReported = false → g'.hasReported = false)) := by
  cases h with
  | outside _ hrank hrank' =>
    refine ⟨?_, Or.inr ⟨rfl, fun hreported => ?_⟩⟩
    · rcases hrank' with hrank' | rfl
      · rw [Guard.report_of_rank hrank']
        rintro ⟨⟩
      · rintro ⟨⟩
    · rw [Guard.hasReported_of_rank hrank] at hreported
      cases hreported
  | step _ answer q hanswer hq =>
    obtain ⟨hreport, hup⟩ := reportDown_guardStep (fun hg => (hanswer hg).2 ⟨applied, rfl⟩) hg hq
    exact ⟨hreport, hup.imp_right fun ⟨hsame, hreported⟩ => ⟨hsame, hreported.trans⟩⟩

/-- `reportUp_guardStep`, also between two calls. -/
theorem reportUp {kept : Bool} (hp : Recovered p.breaker) (hg : g.report ≠ some false)
    (h : GuardEffect c now (.answers kept) p g p' g') :
    Recovered p'.breaker ∧ g'.report ≠ some false ∧ (p'.redisUp = 1 ∨
      p'.redisUp = p.redisUp ∧ (g.hasReported = false → g'.hasReported = false)) := by
  cases h with
  | outside _ hrank hrank' =>
    refine ⟨hp, ?_, Or.inr ⟨rfl, fun hreported => ?_⟩⟩
    · rcases hrank' with hrank' | rfl
      · rw [Guard.report_of_rank hrank']
        rintro ⟨⟩
      · rintro ⟨⟩
    · rw [Guard.hasReported_of_rank hrank] at hreported
      cases hreported
  | step _ answer q hanswer hq =>
    obtain ⟨hp', hreport, hup⟩ := reportUp_guardStep (fun hg => by simp [hanswer hg]) hp hg hq
    exact ⟨hp', hreport, hup.imp_right fun ⟨hsame, hreported⟩ => ⟨hsame, hreported.trans⟩⟩

/-- While the client returns, no step makes a call fail. -/
theorem ne_failure {kept : Bool} (h : GuardEffect c now (.answers kept) p g p' g') : g' ≠ .failure := by
  cases h with
  | outside _ _ hrank' =>
    rcases hrank' with hrank' | rfl
    · rintro rfl
      cases hrank'
    · rintro ⟨⟩
  | step _ answer q hanswer hq =>
    rcases eq_or_ne g .failure with rfl | hg
    · obtain ⟨-, rfl⟩ := Prod.mk.inj (Option.some.inj hq)
      rintro ⟨⟩
    · exact (calling_guardStep (fun hg => by simp [hanswer hg]) hg hq).1

/-- `calling_guardStep`, also between two calls. -/
theorem calling {kept : Bool} (hg : g ≠ .failure) (h : GuardEffect c now (.answers kept) p g p' g') :
    (Recovered p.breaker → Recovered p'.breaker) ∧
      (g.calling = true → g'.calling = true ∨ Recovered p'.breaker) := by
  cases h with
  | outside _ hrank _ =>
    refine ⟨id, fun hcalling => ?_⟩
    rw [Guard.calling_of_rank hrank] at hcalling
    cases hcalling
  | step _ answer q hanswer hq =>
    exact (calling_guardStep (fun hg => by simp [hanswer hg]) hg hq).2

/-- `openedAt_guardStep`, also between two calls. -/
theorem openedAt {B : ℚ} (hB : g = .failure → now ≤ B)
    (hp : p.breaker.state ≠ .closed → p.breaker.openedAt ≤ B)
    (h : GuardEffect c now reply p g p' g') :
    p'.breaker.state ≠ .closed → p'.breaker.openedAt ≤ B := by
  cases h with
  | outside => exact hp
  | step _ answer q _ hq =>
    have hq' := openedAt_guardStep hB hp hq
    exact hq'

/-- `calling_of_allow`, for a step of a worker. -/
theorem admitted (hw : WellFormed c.breaker p.breaker)
    (helapsed : p.breaker.state = .opened → c.breaker.Elapsed p.breaker.openedAt now)
    (h : GuardEffect c now reply p .allow p' g') :
    g'.calling = true ∨ (c.cbEnabled = true ∧ p.breaker.state = .halfOpen) := by
  cases h with
  | outside _ hrank => cases hrank
  | step _ answer q _ hq => exact calling_of_allow hw helapsed hq

/-- While the client raises, a step is nothing to a worker of `EdgeCache.Breaker.Calls`, or a call
of the breaker that is no success; and it admits the call if that does. -/
theorem callStep {ω : Type*} {w : ω} {gate : Gate ω} {call : Option (Call ω)} (hcb : c.cbEnabled = true)
    (hb : gate.breaker = p.breaker) (hcall : call.isSome = g.calling)
    (hnow : g.rank ≠ 0 → gate.clock ≤ now) (hg : g.report ≠ some true)
    (h : GuardEffect c now reply p g p' g') :
    ∃ gate' call', gate'.breaker = p'.breaker ∧ call'.isSome = g'.calling ∧
      gate'.admitted = gate.admitted + (if g = .allow ∧ g' = .redis then 1 else 0) ∧
      (gate' = gate ∧ call' = call ∨ g.rank ≠ 0 ∧ gate'.clock = now ∧
        ∃ op, op ≠ .success ∧
          Breaker.callStep c.breaker w gate call ⟨now, op⟩ = some (gate', call')) := by
  cases h with
  | outside _ hrank hrank' =>
    refine ⟨gate, call, hb, ?_, ?_, Or.inl ⟨rfl, rfl⟩⟩
    · rw [hcall, Guard.calling_of_rank hrank]
      rcases hrank' with hrank' | rfl
      · exact (Guard.calling_of_rank hrank').symm
      · rfl
    · rw [if_neg, add_zero]
      rintro ⟨rfl, -⟩
      cases hrank
  | step _ answer q _ hq =>
    have hrank : g.rank ≠ 0 := (rank_pos_of_guardStep hq).ne'
    have hclock := hnow hrank
    cases g with
    | allow =>
      obtain rfl : call = none := by simpa [Guard.calling] using hcall
      rcases ha : p.breaker.allow c.breaker now with ⟨admitted, b⟩
      rw [← hb] at ha
      simp only [guardStep, hcb, if_true, ← hb, ha] at hq
      cases admitted with
      | true =>
        obtain ⟨rfl, rfl⟩ := Prod.mk.inj (Option.some.inj hq)
        exact ⟨gate.grant (gate.newCall w now) b, _, rfl, rfl, rfl,
          Or.inr ⟨hrank, rfl, .allow, by rintro ⟨⟩, callStep_admitted hclock ha⟩⟩
      | false =>
        obtain ⟨rfl, rfl⟩ := Prod.mk.inj (Option.some.inj hq)
        exact ⟨{ gate with breaker := b, clock := now }, none, rfl, rfl, rfl,
          Or.inr ⟨hrank, rfl, .allow, by rintro ⟨⟩, callStep_refused hclock ha⟩⟩
    | failure =>
      obtain ⟨d, rfl⟩ := Option.isSome_iff_exists.1 (hcall.trans rfl)
      obtain ⟨rfl, rfl⟩ := Prod.mk.inj (Option.some.inj hq)
      exact ⟨{ gate with breaker := gate.breaker.recordFailure c.breaker now, clock := now }, none,
        congrArg (CircuitBreaker.recordFailure c.breaker now) hb, rfl, rfl,
        Or.inr ⟨hrank, rfl, .failure, by rintro ⟨⟩, callStep_failure hclock d⟩⟩
    | success => exact absurd rfl hg
    | redis =>
      cases answer <;> obtain ⟨rfl, rfl⟩ := Prod.mk.inj (Option.some.inj hq) <;>
        exact ⟨gate, call, hb, hcall, rfl, Or.inl ⟨rfl, rfl⟩⟩
    | setUp o =>
      obtain ⟨rfl, rfl⟩ := Prod.mk.inj (Option.some.inj hq)
      refine ⟨gate, call, hb, ?_, rfl, Or.inl ⟨rfl, rfl⟩⟩
      cases o <;> exact hcall
    | setOk | countError =>
      obtain ⟨rfl, rfl⟩ := Prod.mk.inj (Option.some.inj hq)
      exact ⟨gate, call, hb, hcall, rfl, Or.inl ⟨rfl, rfl⟩⟩
    | done => cases hq

end GuardEffect

omit [DecidableEq ρ] in
theorem clientGet_raises {k : String} {store : RedisStore} :
    (clientGet k reply store).2 = none ↔ ∃ applied, reply = .raises applied := by
  rcases reply with applied | (_ | _) <;> simp [clientGet]

omit [DecidableEq ρ] in
theorem clientSet_raises {k : String} {data : Bytes} {store : RedisStore} :
    (clientSet k data reply store).2 = none ↔ ∃ applied, reply = .raises applied := by
  rcases reply with (_ | _) | (_ | _) <;> simp [clientSet]

/-- A step of a call, in `_read` or in `_write`. -/
theorem guardEffect_of_guard {ν : Type*} {c : Replica} {call : RedisStore → RedisStore × Option ν}
    {g g' : Guard ν} (hcall : (call W.redis).2 = none ↔ ∃ applied, reply = .raises applied)
    (h : W.guard c r now call g = some (W', g')) :
    GuardEffect c.guard now reply (W.proc r) (g.map fun _ => ()) { W'.proc r with clock := now }
      (g'.map fun _ => ()) := by
  obtain ⟨p, hq, rfl⟩ := guard_eq_some.1 h
  have hanswer : g.map (fun _ => ()) = .redis →
      ((if g.atRedis then (call W.redis).2 else none).map (fun _ => ()) = none ↔
        ∃ applied, reply = .raises applied) := fun hg => by
    obtain rfl : g = .redis := by
      cases g <;> first | rfl | cases hg
    rw [← hcall]
    simp [Guard.atRedis]
  simpa using GuardEffect.step _ _ _ _ hanswer
    (guardStep_map (t := (W.proc r).clock) (fun _ => ()) hq)

/-- **What a step of a worker does behind the breaker.** -/
theorem guard_segmentEffect (h : SegmentEffect D r now reply elapsed W t W' t') :
    GuardEffect (D.config r).guard now reply (W.proc r) t.guard { W'.proc r with clock := now }
      t'.guard := by
  cases h with
  | lookup => exact .outside _ _ rfl (Or.inr rfl)
  | read id span g g' _ hq => exact guardEffect_of_guard clientGet_raises hq
  | write id data e g g' _ hq => exact guardEffect_of_guard clientSet_raises hq
  | readDone | readMemoryDone => exact .outside _ _ rfl (Or.inl (guard_afterRead _ _))
  | readMemory id span m m' _ hq | writeMemory id data e m m' _ hq =>
    rw [proc_inMemory hq]
    exact .outside _ _ rfl (Or.inl rfl)
  | fetched =>
    unfold afterFetch
    split
    · exact .outside _ _ rfl (Or.inl rfl)
    · split
      · exact .outside _ _ rfl (Or.inr rfl)
      · exact .outside _ _ rfl (Or.inl rfl)
  | lookupMemory | fetchRaised | writeDone | writeMemoryDone => exact .outside _ _ rfl (Or.inl rfl)

end EdgeCache.Cache
