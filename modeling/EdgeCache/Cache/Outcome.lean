import EdgeCache.Cache.Fleet

/-!
# What a call returns

To its caller, `get_segment` is a function of what the lookup has found and of how long the origin
took (`segmentOutcome`). It raises an exception if the fetch from the origin does, or the write to
the in-memory store (`segmentOutcome_eq_error`). In every run of the fleet, every call that has
returned did so with the outcome for some such findings (`outcome_run`). So what is proved of all
findings, as it is for the handlers of `EdgeCache.Service`, holds of the fleet. While Redis does not
answer, no call of a strict replica becomes a hit (`mayHit_segmentEffect`); and while it answers and
holds the segment, every call does (`warm_segmentEffect`).
-/

namespace EdgeCache.Cache

open Breaker Transition

/-! ## The outcomes -/

section Fetch

variable {size : ℤ} {sleepLimit : ℚ} {originLatency : PyFloat} {write : Except PyError Unit}
  {id : String} {bypass : Bool} {cached : Option Bytes} {elapsed : ℚ} {data : Bytes} {e : PyError}

theorem originFetch_eq_ok : originFetch size sleepLimit originLatency id = .ok data ↔
    PyFloat.timeSleep sleepLimit originLatency = .ok () ∧ generateSegmentBytes size id = .ok data := by
  cases hsleep : PyFloat.timeSleep sleepLimit originLatency <;>
    simp [originFetch, hsleep, bind, Except.bind]

theorem originFetch_eq_error : originFetch size sleepLimit originLatency id = .error e ↔
    PyFloat.timeSleep sleepLimit originLatency = .error e ∨
      PyFloat.timeSleep sleepLimit originLatency = .ok () ∧ e = .overflowError ∧
        ¬ SizeFits size id := by
  cases hsleep : PyFloat.timeSleep sleepLimit originLatency <;>
    simp [originFetch, hsleep, bind, Except.bind, generateSegmentBytes_error_iff]

theorem writeOutcome_eq_error {b : Backend} {ttl : ℤ} : writeOutcome b ttl = .error e ↔
    b = .memory ∧ e = .overflowError ∧ ¬ PyFloat.Fits ttl := by
  cases b <;> simp [writeOutcome, memSetOutcome_eq_error]

theorem writeOutcome_eq_ok {b : Backend} {ttl : ℤ} : writeOutcome b ttl = .ok () ↔
    (b = .memory → PyFloat.Fits ttl) := by
  cases b with
  | redis => simp [writeOutcome]
  | memory =>
    by_cases h : PyFloat.Fits ttl
    · simp [writeOutcome, memSetOutcome_of_fits h, h]
    · simp [writeOutcome, memSetOutcome_of_not_fits h, h]

/-- The outcome of a fetch from the origin, whose result is cached unless the cache is bypassed. -/
theorem segmentOutcome_of_fetch (h : originFetch size sleepLimit originLatency id = .ok data)
    (hmiss : bypass = true ∨ cached = none) :
    segmentOutcome size sleepLimit originLatency write id bypass cached elapsed =
      (if bypass then .ok () else write).map fun _ => ⟨data, false, elapsed⟩ := by
  have hread : (if bypass then none else cached) = none := by
    rcases hmiss with rfl | rfl <;> simp
  simp only [segmentOutcome, hread, h]
  cases bypass <;> cases write <;> rfl

theorem segmentOutcome_of_fetchRaised (h : originFetch size sleepLimit originLatency id = .error e)
    (hmiss : bypass = true ∨ cached = none) :
    segmentOutcome size sleepLimit originLatency write id bypass cached elapsed = .error e := by
  have hread : (if bypass then none else cached) = none := by
    rcases hmiss with rfl | rfl <;> simp
  simp only [segmentOutcome, hread, h]
  rfl

/-- **When a call raises**: it is a miss, or bypasses the cache, and either the fetch raises or else
the write. -/
theorem segmentOutcome_eq_error :
    segmentOutcome size sleepLimit originLatency write id bypass cached elapsed = .error e ↔
      (bypass = true ∨ cached = none) ∧
        (originFetch size sleepLimit originLatency id = .error e ∨
          (∃ data, originFetch size sleepLimit originLatency id = .ok data) ∧ bypass = false ∧
            write = .error e) := by
  by_cases hmiss : bypass = true ∨ cached = none
  · cases hfetch : originFetch size sleepLimit originLatency id with
    | error e' => simp [segmentOutcome_of_fetchRaised hfetch hmiss, hmiss]
    | ok data =>
      rw [segmentOutcome_of_fetch hfetch hmiss]
      simp only [hmiss, true_and, reduceCtorEq, false_or, Except.ok.injEq, exists_eq']
      cases bypass <;> cases write <;> simp [Except.map]
  · obtain ⟨hbypass, hcached⟩ := not_or.1 hmiss
    obtain ⟨data, rfl⟩ := Option.ne_none_iff_exists'.1 hcached
    simp [segmentOutcome, hbypass]

/-- A call that is no hit has fetched the segment. -/
theorem originFetch_of_segmentOutcome {out : SegmentResult}
    (h : segmentOutcome size sleepLimit originLatency write id bypass cached elapsed = .ok out)
    (hmiss : out.cacheHit = false) : originFetch size sleepLimit originLatency id = .ok out.data := by
  by_cases hread : bypass = true ∨ cached = none
  · cases hfetch : originFetch size sleepLimit originLatency id with
    | error e => cases (segmentOutcome_of_fetchRaised hfetch hread).symm.trans h
    | ok data =>
      rw [segmentOutcome_of_fetch hfetch hread] at h
      cases hwrite : if bypass then .ok () else write with
      | error e => simp [hwrite, Except.map] at h
      | ok =>
        simp only [hwrite, Except.map, Except.ok.injEq] at h
        rw [← h]
  · obtain ⟨hbypass, hcached⟩ := not_or.1 hread
    obtain ⟨data, rfl⟩ := Option.ne_none_iff_exists'.1 hcached
    simp only [segmentOutcome, hbypass, Bool.false_eq_true, if_false, Except.ok.injEq] at h
    rw [← h] at hmiss
    cases hmiss

end Fetch

variable {ω ρ : Type*} [DecidableEq ρ] {D : Deployment ω ρ} {W W' : World ρ} {r : ρ} {now : ℚ}

/-- `get_segment(id, bypass)` on replica `r`, as its caller sees it. -/
def Deployment.outcome (D : Deployment ω ρ) (r : ρ) (id : String) (bypass : Bool)
    (cached : Option Bytes) (elapsed : ℚ) : Except PyError SegmentResult :=
  segmentOutcome D.segmentSizeBytes D.sleepLimit (D.config r).originLatencySeconds
    (writeOutcome (D.config r).backend (D.config r).segmentTtlSeconds) id bypass cached elapsed

/-- A call that has returned did so with an outcome, and one which is writing will. -/
def Worker.Accounted (D : Deployment ω ρ) (r : ρ) : Worker → Prop
  | .resting (some (id, result)) =>
    ∃ bypass cached elapsed, result = D.outcome r id bypass cached elapsed
  | .writing id data _ _ => (D.config r).backend = .redis ∧ D.fetch r id = .ok data
  | .writingMemory id data _ m =>
    (D.config r).backend = .memory ∧ D.fetch r id = .ok data ∧ m.Ends (D.config r).segmentTtlSeconds
  | _ => True

omit [DecidableEq ρ] in
/-- A call that has fetched and written the segment. -/
theorem outcome_of_written {id : String} {data : Bytes} {elapsed : ℚ} {b : Backend}
    (hb : (D.config r).backend = b) (h : D.fetch r id = .ok data) :
    (writeOutcome b (D.config r).segmentTtlSeconds).map (fun _ => ⟨data, false, elapsed⟩) =
      D.outcome r id false none elapsed := by
  rw [Deployment.outcome, segmentOutcome_of_fetch h (Or.inr rfl), hb]
  rfl

omit [DecidableEq ρ] in
theorem accounted_afterRead (id : String) (cached : Option Bytes) :
    (afterRead id cached).Accounted D r := by
  cases cached with
  | none => trivial
  | some data => exact ⟨false, some data, 0, rfl⟩

omit [DecidableEq ρ] in
theorem accounted_afterFetch {id : String} {data : Bytes} (bypass : Bool) (elapsed : ℚ)
    (h : D.fetch r id = .ok data) : (afterFetch (D.config r) id bypass data elapsed).Accounted D r := by
  cases bypass with
  | true =>
    have hout : D.outcome r id true none elapsed = .ok ⟨data, false, elapsed⟩ :=
      segmentOutcome_of_fetch h (Or.inl rfl)
    exact ⟨true, none, elapsed, hout.symm⟩
  | false =>
    cases hb : (D.config r).backend with
    | redis => simpa [afterFetch, hb, Worker.Accounted] using h
    | memory => simpa [afterFetch, hb, Worker.Accounted, MemSet.Ends] using h

theorem accounted_segmentEffect {reply : Reply} {elapsed : ℚ} {t t' : Worker}
    (ht : t.Accounted D r) (h : SegmentEffect D r now reply elapsed W t W' t') :
    t'.Accounted D r := by
  cases h with
  | lookup | lookupMemory | read | readMemory => trivial
  | readDone | readMemoryDone => exact accounted_afterRead _ _
  | fetchRaised id bypass e he =>
    exact ⟨true, none, elapsed, (segmentOutcome_of_fetchRaised he (Or.inl rfl)).symm⟩
  | fetched id bypass data he => exact accounted_afterFetch bypass elapsed he
  | write => exact ht
  | writeMemory id data e m m' _ hq =>
    obtain ⟨M, hM, -⟩ := inMemory_eq_some.1 hq
    exact ⟨ht.1, ht.2.1, ends_memSetStep ht.2.2 hM⟩
  | writeDone id data e => exact ⟨false, none, e, outcome_of_written ht.1 ht.2⟩
  | writeMemoryDone id data e written =>
    obtain ⟨hb, hfetch, hends⟩ := ht
    obtain rfl : written = memSetOutcome (D.config r).segmentTtlSeconds := hends
    exact ⟨false, none, e, outcome_of_written hb hfetch⟩

theorem accounted_fleetStep {w : ω} {t t' : Worker} {a : FleetAct}
    (ht : t.Accounted D (D.replica w)) (h : fleetStep D w W t a = some (W', t')) :
    t'.Accounted D (D.replica w) := by
  obtain ⟨-, W₁, -, heff⟩ := fleetStep_effect h
  cases heff with
  | call last id bypass => cases bypass <;> trivial
  | flush => trivial
  | go reply elapsed heff => exact accounted_segmentEffect ht heff

/-! ## The segment of a call -/

/-- The call is for segment `id`. -/
def Worker.About (id : String) : Worker → Prop
  | .resting last => ∃ result, last = some (id, result)
  | .lookup id' => id' = id
  | .reading id' _ _ => id' = id
  | .readingMemory id' _ _ => id' = id
  | .origin id' _ => id' = id
  | .writing id' _ _ _ => id' = id
  | .writingMemory id' _ _ _ => id' = id

theorem about_afterRead (id : String) (cached : Option Bytes) : (afterRead id cached).About id := by
  cases cached with
  | none => exact rfl
  | some data => exact ⟨_, rfl⟩

theorem about_afterFetch (c : Replica) (id : String) (bypass : Bool) (data : Bytes) (e : ℚ) :
    (afterFetch c id bypass data e).About id := by
  unfold afterFetch
  split
  · exact ⟨_, rfl⟩
  · split <;> exact rfl

theorem about_segmentEffect {reply : Reply} {elapsed : ℚ} {t t' : Worker} {id : String}
    (ht : t.About id) (h : SegmentEffect D r now reply elapsed W t W' t') : t'.About id := by
  cases h with
  | lookup | lookupMemory | read | readMemory | write | writeMemory => exact ht
  | readDone id' | readMemoryDone id' =>
    obtain rfl : id' = id := ht
    exact about_afterRead _ _
  | fetchRaised id' =>
    obtain rfl : id' = id := ht
    exact ⟨_, rfl⟩
  | fetched id' =>
    obtain rfl : id' = id := ht
    exact about_afterFetch _ _ _ _ _
  | writeDone id' | writeMemoryDone id' =>
    obtain rfl : id' = id := ht
    exact ⟨_, rfl⟩

/-- A call stays for its segment. -/
theorem about_go {w : ω} {t t' : Worker} {id : String} {now : ℚ} {reply : Reply} {elapsed : ℚ}
    (ht : t.About id) (h : fleetStep D w W t ⟨now, .go reply elapsed⟩ = some (W', t')) :
    t'.About id := by
  obtain ⟨-, W₁, heff, -⟩ := fleetStep_go.1 h
  exact about_segmentEffect ht heff

/-! ## Calls during an outage -/

/-- The call may still be a hit, even if Redis does not answer any more. -/
def Worker.mayHit : Worker → Bool
  | .resting (some (_, .ok result)) => result.cacheHit
  | .reading _ _ g => g.found.join.isSome
  | .readingMemory _ _ _ => true
  | _ => false

/-- A lookup that ends finds what it has found. -/
theorem mayHit_afterRead {id : String} {cached : Option Bytes} (h : cached.isSome = false) :
    (afterRead id cached).mayHit = false := by
  cases cached with
  | none => rfl
  | some => cases h

/-- While the calls of Redis raise, no call of a strict replica becomes a hit. -/
theorem mayHit_segmentEffect (hredis : (D.config r).backend = .redis) {applied : Bool} {elapsed : ℚ}
    {t t' : Worker} (ht : t.mayHit = false)
    (h : SegmentEffect D r now (.raises applied) elapsed W t W' t') : t'.mayHit = false := by
  cases h with
  | lookup | fetchRaised | write | writeDone | writeMemory => rfl
  | writeMemoryDone id data e written => cases written <;> rfl
  | lookupMemory id hmemory => cases hredis.symm.trans hmemory
  | read id span g g' W' hstep =>
    obtain ⟨p, hguard, -⟩ := guard_eq_some.1 hstep
    have hreply : (if g.atRedis then (clientGet (key id) (.raises applied) W.redis).2 else none) =
        none := by
      split <;> rfl
    rw [hreply] at hguard
    simp only [Worker.mayHit] at ht ⊢
    rcases found_guardStep hguard with ⟨-, hfound⟩ | ⟨-, hfound⟩
    · rw [hfound]
      rfl
    · cases hg' : g'.found with
      | none => rfl
      | some v =>
        rw [hfound v hg'] at ht
        exact ht
  | readDone id span o => exact mayHit_afterRead ht
  | readMemory | readMemoryDone => cases ht
  | fetched id bypass =>
    unfold afterFetch
    split
    · rfl
    · split <;> rfl

/-! ## Lookups of a segment that Redis holds -/

/-- The call finds an entry, or is going to. -/
def Guard.finds : Guard (Option Bytes) → Bool
  | .allow => true
  | .redis => true
  | .success v => v.isSome
  | .setOk (.answered v) => v.isSome
  | .setUp (.answered v) => v.isSome
  | .done (.answered v) => v.isSome
  | _ => false

theorem finds_guardStep {cfg : Config} {now : ℚ} {answer : Option (Option Bytes)} {p p' : Proc}
    {g g' : Guard (Option Bytes)} (hanswer : g = .redis → ∃ data, answer = some (some data))
    (hp : Recovered p.breaker) (hg : g.finds = true)
    (hstep : guardStep cfg now answer p g = some (p', g')) : g'.finds = true := by
  cases g with
  | allow =>
    simp only [guardStep, CircuitBreaker.allow_of_closed _ _ _ hp.1] at hstep
    split_ifs at hstep <;> obtain ⟨rfl, rfl⟩ := Prod.mk.inj (Option.some.inj hstep) <;> rfl
  | redis =>
    obtain ⟨data, rfl⟩ := hanswer rfl
    obtain ⟨rfl, rfl⟩ := Prod.mk.inj (Option.some.inj hstep)
    rfl
  | success v =>
    obtain ⟨rfl, rfl⟩ := Prod.mk.inj (Option.some.inj hstep)
    exact hg
  | setOk o =>
    obtain ⟨rfl, rfl⟩ := Prod.mk.inj (Option.some.inj hstep)
    cases o <;> exact hg
  | setUp o =>
    obtain ⟨rfl, rfl⟩ := Prod.mk.inj (Option.some.inj hstep)
    cases o <;> exact hg
  | failure | countError => cases hg
  | done => cases hstep

/-- The lookup of the call is a hit, or going to be one, and the call is not about to write. -/
def Worker.Warm (redis : RedisStore) : Worker → Prop
  | .lookup id => (redis (key id)).isSome
  | .reading id _ g => (redis (key id)).isSome ∧ g.finds = true
  | .resting (some (_, .ok result)) => result.cacheHit = true
  | _ => False

/-- Such a lookup is a hit, and leaves Redis as it is. -/
theorem warm_segmentEffect {elapsed : ℚ} {t t' : Worker} (hredis : (D.config r).backend = .redis)
    (hp : Recovered (W.proc r).breaker) (ht : t.Warm W.redis)
    (hstep : SegmentEffect D r now (.answers true) elapsed W t W' t') :
    W'.redis = W.redis ∧ t'.Warm W.redis := by
  cases hstep with
  | lookup id => exact ⟨rfl, ht, rfl⟩
  | lookupMemory id hmemory => cases hredis.symm.trans hmemory
  | read id span g g' _ hguard =>
    obtain ⟨hheld, hfinds⟩ := ht
    obtain ⟨p, hstep, rfl⟩ := guard_eq_some.1 hguard
    obtain ⟨data, hdata⟩ := Option.isSome_iff_exists.1 hheld
    have hsame : (if g.atRedis = true then (clientGet (key id) (.answers true) W.redis).1 else W.redis) =
        W.redis := by split <;> rfl
    refine ⟨hsame, hheld, finds_guardStep (fun hg => ⟨data, ?_⟩) hp hfinds hstep⟩
    rw [hg]
    exact congrArg some hdata
  | readDone id span o =>
    obtain ⟨-, hfinds⟩ := ht
    refine ⟨rfl, ?_⟩
    cases o with
    | answered v =>
      obtain ⟨data, rfl⟩ := Option.isSome_iff_exists.1 hfinds
      exact rfl
    | skipped | raised => cases hfinds
  | fetchRaised | fetched | readMemory | readMemoryDone | write | writeDone | writeMemory |
    writeMemoryDone => exact ht.elim

variable [DecidableEq ω]

/-- **Every call returns one of the outcomes of `segmentOutcome`.** -/
theorem outcome_run {t₀ : ρ → ℚ} {s : Fleet ω ρ}
    (h : Reachable (Pool.step (fleetStep D)) (launch D t₀) s) {w : ω} {id : String}
    {result : Except PyError SegmentResult} (hw : s.thread w = .resting (some (id, result))) :
    ∃ bypass cached elapsed, result = D.outcome (D.replica w) id bypass cached elapsed := by
  have hstable : Pool.Stable (fleetStep D) (fun _ _ _ => True) (fun _ => True)
      fun w _ t => t.Accounted D (D.replica w) :=
    ⟨fun _ _ ht he => ⟨trivial, accounted_fleetStep ht he⟩, fun _ _ _ _ _ hu _ => hu⟩
  have hstart : Pool.Holds (fun _ => True)
      (fun (w : ω) _ (t : Worker) => t.Accounted D (D.replica w)) (launch D t₀) :=
    ⟨trivial, fun _ => trivial⟩
  have := (hstable.reachable hstart h).2 w
  rwa [hw] at this

end EdgeCache.Cache
