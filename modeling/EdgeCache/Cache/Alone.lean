import EdgeCache.Cache.Sequential

/-!
# A worker on its own

The requests of `EdgeCache.Cache.Sequential`, as runs of the replicas in which one worker takes all
the steps, a block of them for each request, at the request's own readings of the clock
(`Request.Performs`, `served_by_worker`). The map with deadlines is one of the ways in which Redis
can behave there: it loses an entry at the first read after its deadline (`Edge.readReply`), and
raises only when the expire time is not positive (`Replica.writeReply`). So what holds of every run
of the replicas holds of the requests made one after the other.

`Edge.In` relates the cache of the requests to a replica, and each phase of a request is a lemma
that keeps it: `reachable_read`, `reachable_write`, `reachable_fetch`. Inside a phase no time
passes.
-/

namespace EdgeCache.Cache

open Transition Transcript

variable {ω ρ : Type*} [DecidableEq ρ] (D : Deployment ω ρ) (w : ω)

/-- A step of worker `w`, the others taking none. -/
def aloneStep (q : World ρ × Worker) (a : FleetAct) : Option (World ρ × Worker) :=
  fleetStep D w q.1 q.2 a

variable {D w} {W W' : World ρ} {r : ρ} {now : ℚ}

/-- The worker takes a step of the call that it is in, when the clock reads `now`, and Redis would
give that reply. -/
def GoesOn (now : ℚ) (reply : Reply) (a : FleetAct) : Prop :=
  a.now = now ∧ ∃ elapsed, a.input = .go reply elapsed

/-- How Redis replies to a `get`: what has expired is lost. -/
def Edge.readReply (s : Edge) (now : ℚ) (id : String) : Reply :=
  .answers (Ttl.read s.redis now (key id)).isSome

/-- How Redis replies to a `set`. -/
def Replica.writeReply (c : Replica) : Reply :=
  if 0 < c.segmentTtlSeconds then .answers true else .raises false

/-- What a worker does to make the request of the cache `s`: it starts the call, takes the steps of
the lookup at one reading of the clock and those of the fetch and of the write at the other. -/
inductive Request.Performs (c : Replica) (s : Edge) : Request → List FleetAct → Prop
  | getSegment (id : String) (bypass : Bool) (t : Times) (lookup write : List FleetAct) :
      (∀ a ∈ lookup, GoesOn t.lookup (s.readReply t.lookup id) a) →
      (∀ a ∈ write, GoesOn t.write c.writeReply a) →
      Request.Performs c s (.getSegment id bypass t)
        (⟨t.lookup, .getSegment id bypass⟩ :: (lookup ++ write))
  | flush (now : ℚ) : Request.Performs c s .flush [⟨now, .flush (.answers true)⟩]

/-! ## The cache in a replica -/

/-- The cache is that of replica `r` when the clock reads `now`; Redis may hold entries that have
expired. -/
structure Edge.In (s : Edge) (W : World ρ) (r : ρ) (now : ℚ) : Prop where
  proc : W.proc r = { s.proc with clock := now }
  memory : W.memory r = s.memory
  redis : ∀ k v, Ttl.read s.redis now k = some v → W.redis k = some v

variable {s : Edge} {u : ℚ}

/-- Time passes. -/
theorem Edge.In.tick (h : s.In W r now) (hu : now ≤ u) : s.In (W.tick r u) r u where
  proc := by simp [World.tick, h.proc]
  memory := h.memory
  redis := fun k v hk => by
    obtain ⟨d, hm, hlive⟩ := Ttl.read_eq_some_iff.1 hk
    exact h.redis k v (Ttl.read_eq_some_iff.2 ⟨d, hm, hlive.mono hu⟩)

omit [DecidableEq ρ] in
theorem Edge.In.clock (h : s.In W r now) : (W.proc r).clock = now := by rw [h.proc]

omit [DecidableEq ρ] in
/-- Redis returns what can be read, if it loses an entry that has expired. -/
theorem clientGet_of_in (h : s.In W r now) (id : String) :
    (clientGet (key id) (s.readReply now id) W.redis).2 = some (Ttl.read s.redis now (key id)) ∧
      ∀ k v, Ttl.read s.redis now k = some v →
        (clientGet (key id) (s.readReply now id) W.redis).1 k = some v := by
  unfold Edge.readReply
  cases hread : Ttl.read s.redis now (key id) with
  | some data => exact ⟨by simp [clientGet, h.redis _ data hread],
      fun k v hk => by simpa [clientGet] using h.redis k v hk⟩
  | none =>
    refine ⟨by simp [clientGet], fun k v hk => ?_⟩
    have hne : k ≠ key id := by
      rintro rfl
      rw [hread] at hk
      cases hk
    simpa [clientGet, hne] using h.redis k v hk

omit [DecidableEq ρ] in
/-- Redis does what the map does, if it raises when the map rejects the `set`. -/
theorem clientSet_of_in (h : s.In W r now) (c : Replica) (key : String) (data : Bytes) :
    (clientSet key data c.writeReply W.redis).2 =
        (if 0 < c.segmentTtlSeconds then some () else none) ∧
      ∀ k v, Ttl.read (redisCall s.redis (now, .set key data c.segmentTtlSeconds)).1 now k = some v →
        (clientSet key data c.writeReply W.redis).1 k = some v := by
  unfold Replica.writeReply
  by_cases httl : 0 < c.segmentTtlSeconds
  · simp only [if_pos httl, clientSet, redisCall, true_and]
    intro k v hk
    rw [Ttl.read_put] at hk
    by_cases hkey : k = key
    · rw [if_pos hkey] at hk
      obtain ⟨-, hv⟩ := Option.ite_none_right_eq_some.1 hk
      simpa [hkey] using hv
    · rw [if_neg hkey] at hk
      simpa [hkey] using h.redis k v hk
  · simp only [if_neg httl, clientSet, redisCall, true_and]
    exact h.redis

/-! ## Steps at one reading of the clock -/

theorem tick_of_clock (h : (W.proc r).clock = now) : W.tick r now = W := by
  subst h
  simp [World.tick]

omit [DecidableEq ρ] in
theorem goesOn (now : ℚ) (reply : Reply) (elapsed : ℚ) :
    GoesOn now reply ⟨now, .go reply elapsed⟩ :=
  ⟨rfl, elapsed, rfl⟩

theorem aloneStep_go (reply : Reply) (elapsed : ℚ) {t t' : Worker}
    (hclock : (W.proc (D.replica w)).clock ≤ now)
    (h : SegmentEffect D (D.replica w) now reply elapsed W t W' t') :
    aloneStep D w (W, t) ⟨now, .go reply elapsed⟩ = some (W'.tick (D.replica w) now, t') := by
  simp [aloneStep, fleetStep, not_lt.2 hclock, segmentStep_iff.2 h]

/-- A step after which the clock reads what it did before. -/
theorem reachable_go (reply : Reply) (elapsed : ℚ) {t t' : Worker}
    (hclock : (W.proc (D.replica w)).clock = now) (hclock' : (W'.proc (D.replica w)).clock = now)
    (h : SegmentEffect D (D.replica w) now reply elapsed W t W' t') :
    ReachableBy (aloneStep D w) (GoesOn now reply) (W, t) (W', t') := by
  have hgo := aloneStep_go reply elapsed hclock.le h
  rw [tick_of_clock hclock'] at hgo
  exact ReachableBy.single (goesOn now reply elapsed) hgo

/-! ## Calls behind the breaker -/

section Guard

variable {ν : Type*} {cfg : Config}

theorem clock_guardStep {reply : Option ν} {p p' : Proc} {g g' : Guard ν}
    (h : guardStep cfg now reply p g = some (p', g')) : p'.clock = p.clock := by
  cases g with
  | allow =>
    simp only [guardStep] at h
    split_ifs at h
    · split at h <;> obtain ⟨rfl, -⟩ := Prod.mk.inj (Option.some.inj h) <;> rfl
    · obtain ⟨rfl, -⟩ := Prod.mk.inj (Option.some.inj h)
      rfl
  | redis =>
    cases reply <;> obtain ⟨rfl, -⟩ := Prod.mk.inj (Option.some.inj h) <;> rfl
  | success | failure | setOk | setUp | countError =>
    obtain ⟨rfl, -⟩ := Prod.mk.inj (Option.some.inj h)
    rfl
  | done => cases h

/-- The client call has been made. -/
def Guard.called : Guard ν → Bool
  | .allow | .redis => false
  | .success _ | .failure | .countError => true
  | .setOk o | .setUp o | .done o =>
    match o with
    | .skipped => false
    | _ => true

theorem called_guardStep {reply : Option ν} {p p' : Proc} {g g' : Guard ν}
    (h : guardStep cfg now reply p g = some (p', g')) : g'.called = (g.atRedis || g.called) := by
  cases g with
  | allow =>
    simp only [guardStep] at h
    split_ifs at h
    · split at h <;> obtain ⟨-, rfl⟩ := Prod.mk.inj (Option.some.inj h) <;> rfl
    · obtain ⟨-, rfl⟩ := Prod.mk.inj (Option.some.inj h)
      rfl
  | redis =>
    cases reply <;> obtain ⟨-, rfl⟩ := Prod.mk.inj (Option.some.inj h) <;> rfl
  | setUp o =>
    obtain ⟨-, rfl⟩ := Prod.mk.inj (Option.some.inj h)
    cases o <;> rfl
  | success | failure | setOk | countError =>
    obtain ⟨-, rfl⟩ := Prod.mk.inj (Option.some.inj h)
    rfl
  | done => cases h

/-- Only the client call gets a reply. -/
theorem guardStep_of_not_atRedis {reply : Option ν} {p : Proc} {g : Guard ν}
    (hg : g.atRedis = false) : guardStep cfg now reply p g = guardStep cfg now none p g := by
  cases g with
  | redis => cases hg
  | _ => rfl

variable (call : RedisStore → RedisStore × Option ν) (R : RedisStore)

/-- Redis, when a call has got to `g`. -/
def redisAt (g : Guard ν) : RedisStore := if g.called then (call R).1 else R

/-- The world with another process of replica `r`, and another Redis. -/
def World.withRedis (W : World ρ) (r : ρ) (p : Proc) (R : RedisStore) : World ρ :=
  { W with proc := Function.update W.proc r p, redis := R }

variable {call R}

/-- A step of the replica's call, next to that of its process. -/
theorem guard_of_guardStep {c : Replica} {p p' : Proc} {g g' : Guard ν}
    (h : guardStep c.guard now (call R).2 p g = some (p', g')) :
    (W.withRedis r p (redisAt call R g)).guard c r now call g =
      some (W.withRedis r p' (redisAt call R g'), g') := by
  have hcalled := called_guardStep h
  cases hg : g.atRedis with
  | true =>
    have hbefore : g.called = false := by
      cases g with
      | redis => rfl
      | _ => cases hg
    refine guard_eq_some.2 ⟨p', ?_, ?_⟩ <;>
      simp [World.withRedis, redisAt, hg, hbefore, hcalled, h]
  | false =>
    rw [guardStep_of_not_atRedis hg] at h
    refine guard_eq_some.2 ⟨p', ?_, ?_⟩ <;> simp [World.withRedis, redisAt, hg, hcalled, h]

theorem guardCall_clock {ν : Type*} (cfg : Config) (now t : ℚ) (reply : Option ν) (p : Proc) :
    guardCall cfg now reply { p with clock := t } =
      ({ (guardCall cfg now reply p).1 with clock := t }, (guardCall cfg now reply p).2) := by
  have hadmission : admission cfg now { p with clock := t } = admission cfg now p := rfl
  unfold guardCall
  rw [hadmission]
  rcases admission cfg now p with ⟨_ | _, b⟩
  · rfl
  · cases reply <;> rfl

/-- **A call behind the breaker** that one worker makes on its own, as a reader or a writer. -/
theorem Edge.In.reachable_guard (h : s.In W (D.replica w) now)
    {call : RedisStore → RedisStore × Option ν} {v : Option ν} (hreply : (call W.redis).2 = v)
    {reply : Reply} {f : Guard ν → Worker}
    (hf : ∀ (W : World ρ) g W' g',
      W.guard (D.config (D.replica w)) (D.replica w) now call g = some (W', g') →
        SegmentEffect D (D.replica w) now reply 0 W (f g) W' (f g')) :
    let q := guardCall (D.config (D.replica w)).guard now v s.proc
    ReachableBy (aloneStep D w) (GoesOn now reply) (W, f .allow)
      (W.withRedis (D.replica w) { q.1 with clock := now } (redisAt call W.redis (.done q.2)),
        f (.done q.2)) := by
  intro q
  subst hreply
  obtain ⟨n, hrun⟩ := run_guardStep (D.config (D.replica w)).guard now (call W.redis).2
    { s.proc with clock := now }
  let toWorld : Proc × Guard ν → World ρ × Worker := fun q =>
    (W.withRedis (D.replica w) q.1 (redisAt call W.redis q.2), f q.2)
  have hstep : ∀ (q : Proc × Guard ν) (_ : Unit) (q' : Proc × Guard ν), q.1.clock = now →
      guardStep (D.config (D.replica w)).guard now (call W.redis).2 q.1 q.2 = some q' →
      q'.1.clock = now ∧ ∃ a, GoesOn now reply a ∧ aloneStep D w (toWorld q) a = some (toWorld q') := by
    rintro ⟨p₁, g₁⟩ - ⟨p₂, g₂⟩ hp hq
    have hp' := (clock_guardStep hq).trans hp
    refine ⟨hp', ⟨now, .go reply 0⟩, goesOn now reply 0, ?_⟩
    have heff := hf _ _ _ _ (guard_of_guardStep (W := W) hq)
    have hgo := aloneStep_go reply 0 (by simp [World.withRedis, show p₁.clock = now from hp]) heff
    rwa [tick_of_clock (by simpa [World.withRedis] using hp')] at hgo
  have hstart : Reachable (fun (q : Proc × Guard ν) (_ : Unit) =>
      guardStep (D.config (D.replica w)).guard now (call W.redis).2 q.1 q.2) _ _ := ⟨_, hrun⟩
  have hreach := (hstart.embed hstep rfl).2
  rw [guardCall_clock] at hreach
  have hW : W.withRedis (D.replica w) { s.proc with clock := now } W.redis = W := by
    rw [← h.proc]
    simp [World.withRedis]
  simpa only [toWorld, redisAt, Guard.called, Bool.false_eq_true, if_false, hW] using hreach

end Guard

/-! ## Calls of the in-memory store -/

/-- The world with another in-memory store of replica `r`. -/
def World.withMemory (W : World ρ) (r : ρ) (m : MemoryStore) : World ρ :=
  { W with memory := Function.update W.memory r m }

/-- **A call of the in-memory store** that one worker makes on its own. -/
theorem Edge.In.reachable_inMemory (h : s.In W (D.replica w) now) {τ : Type*}
    {mstep : MemoryStore → τ → Option (MemoryStore × τ)} {f : τ → Worker} {m : MemoryStore}
    {t t' : τ} (reply : Reply)
    (hf : ∀ (W : World ρ) t W' t',
      W.inMemory (D.replica w) (fun M => mstep M t) = some (W', t') →
        SegmentEffect D (D.replica w) now reply 0 W (f t) W' (f t'))
    {n : ℕ} (hrun : run (fun (q : MemoryStore × τ) (_ : Unit) => mstep q.1 q.2) (s.memory, t)
      (List.replicate n ()) = some (m, t')) :
    ReachableBy (aloneStep D w) (GoesOn now reply) (W, f t)
      (W.withMemory (D.replica w) m, f t') := by
  let toWorld : MemoryStore × τ → World ρ × Worker := fun q =>
    (W.withMemory (D.replica w) q.1, f q.2)
  have hstep : ∀ (q : MemoryStore × τ) (_ : Unit) (q' : MemoryStore × τ), True →
      mstep q.1 q.2 = some q' →
        True ∧ ∃ a, GoesOn now reply a ∧ aloneStep D w (toWorld q) a = some (toWorld q') := by
    rintro ⟨m₁, t₁⟩ - ⟨m₂, t₂⟩ - hq
    have hmem : (W.withMemory (D.replica w) m₁).inMemory (D.replica w) (fun M => mstep M t₁) =
        some (W.withMemory (D.replica w) m₂, t₂) :=
      inMemory_eq_some.2 ⟨m₂, by simpa [World.withMemory] using hq, by simp [World.withMemory]⟩
    have hgo := aloneStep_go reply 0 (by simp [World.withMemory, h.clock])
      (hf _ _ _ _ hmem)
    rw [tick_of_clock (by simpa [World.withMemory] using h.clock)] at hgo
    exact ⟨trivial, _, goesOn now reply 0, hgo⟩
  have hstart : Reachable (fun (q : MemoryStore × τ) (_ : Unit) => mstep q.1 q.2) _ _ := ⟨_, hrun⟩
  have hreach := (hstart.embed hstep trivial).2
  have hW : W.withMemory (D.replica w) s.memory = W := by
    rw [← h.memory]
    simp [World.withMemory]
  simpa only [toWorld, hW] using hreach

/-! ## The phases of a request -/

/-- The lookup. -/
theorem Edge.In.reachable_read (h : s.In W (D.replica w) now) (id : String) :
    ∃ W', (s.read (D.config (D.replica w)) now (key id)).1.In W' (D.replica w) now ∧
      ReachableBy (aloneStep D w) (GoesOn now (s.readReply now id)) (W, .lookup id)
        (W', afterRead id (s.read (D.config (D.replica w)) now (key id)).2) := by
  let span := lookupSpan (D.config (D.replica w)) (W.proc (D.replica w))
  unfold Edge.read
  cases hb : (D.config (D.replica w)).backend with
  | redis =>
    let reply := s.readReply now id
    obtain ⟨hreply, hkeeps⟩ := clientGet_of_in h id
    have hstart := reachable_go reply 0 h.clock h.clock (.lookup id hb)
    have hcall := h.reachable_guard hreply (f := .reading id span) fun W g W' g' hq =>
      .read id span g g' W' hq
    let q := guardCall (D.config (D.replica w)).guard now (some (Ttl.read s.redis now (key id)))
      s.proc
    let W' := W.withRedis (D.replica w) { q.1 with clock := now }
      (redisAt (clientGet (key id) reply) W.redis (.done q.2))
    have hclock' : (W'.proc (D.replica w)).clock = now := by simp [W', World.withRedis]
    have hdone := reachable_go reply 0 hclock' hclock' (.readDone id span q.2)
    refine ⟨W', ⟨by simp [W', q, World.withRedis], h.memory, fun k v hk => ?_⟩,
      (hstart.trans hcall).trans hdone⟩
    simp only [W', World.withRedis, redisAt]
    split_ifs
    · exact hkeeps k v hk
    · exact h.redis k v hk
  | memory =>
    obtain ⟨n, hrun⟩ := run_memGetStep (key id) now s.memory
    have hstart := reachable_go (s.readReply now id) 0 h.clock h.clock (.lookupMemory id hb)
    have hcall := h.reachable_inMemory (s.readReply now id) (f := .readingMemory id span)
      (fun W m W' m' hq => .readMemory id span m m' W' hq) hrun
    refine ⟨W.withMemory (D.replica w) (memGet (key id) now s.memory).1,
      ⟨h.proc, by simp [World.withMemory], h.redis⟩, (hstart.trans hcall).trans ?_⟩
    exact reachable_go (s.readReply now id) 0 h.clock h.clock (.readMemoryDone id span _)

/-- The write. -/
theorem Edge.In.reachable_write (h : s.In W (D.replica w) now) (id : String) (data : Bytes)
    (elapsed : ℚ) :
    let q := s.write (D.config (D.replica w)) now (key id) data
      (D.config (D.replica w)).segmentTtlSeconds
    ∃ W', q.1.In W' (D.replica w) now ∧
      ReachableBy (aloneStep D w) (GoesOn now (D.config (D.replica w)).writeReply)
        (W, afterFetch (D.config (D.replica w)) id false data elapsed)
        (W', .resting (some (id, q.2.map fun _ => ⟨data, false, elapsed⟩))) := by
  unfold Edge.write afterFetch
  rw [if_neg Bool.false_ne_true]
  cases hb : (D.config (D.replica w)).backend with
  | redis =>
    let ttl := (D.config (D.replica w)).segmentTtlSeconds
    let reply := (D.config (D.replica w)).writeReply
    let q := guardCall (D.config (D.replica w)).guard now (if 0 < ttl then some () else none) s.proc
    let W' := W.withRedis (D.replica w) { q.1 with clock := now }
      (redisAt (clientSet (key id) data reply) W.redis (.done q.2))
    have hclock' : (W'.proc (D.replica w)).clock = now := by simp [W', World.withRedis]
    obtain ⟨hreply, hkeeps⟩ := clientSet_of_in h (D.config (D.replica w)) (key id) data
    have hcall := h.reachable_guard hreply (f := .writing id data elapsed) fun W g W' g' hq =>
      .write id data elapsed g g' W' hq
    have hdone := reachable_go reply 0 hclock' hclock' (.writeDone id data elapsed q.2)
    refine ⟨W', ?_, hcall.trans hdone⟩
    have hproc : W'.proc (D.replica w) = { q.1 with clock := now } := by simp [W', World.withRedis]
    cases ho : q.2 with
    | skipped =>
      simp only [q, ttl] at ho
      simp only [ho]
      refine ⟨hproc, h.memory, ?_⟩
      simpa [W', q, ttl, ho, World.withRedis, redisAt, Guard.called] using h.redis
    | answered | raised =>
      simp only [q, ttl] at ho
      simp only [ho]
      refine ⟨hproc, h.memory, ?_⟩
      simpa [W', q, ttl, ho, World.withRedis, redisAt, Guard.called] using hkeeps
  | memory =>
    obtain ⟨n, hrun⟩ :=
      run_memSetStep (key id) data (D.config (D.replica w)).segmentTtlSeconds now s.memory
    have hcall := h.reachable_inMemory (D.config (D.replica w)).writeReply
      (f := .writingMemory id data elapsed)
      (fun W m W' m' hq => .writeMemory id data elapsed m m' W' hq) hrun
    refine ⟨W.withMemory (D.replica w)
        (memSet (key id) data (D.config (D.replica w)).segmentTtlSeconds now s.memory).1,
      ⟨h.proc, by simp [World.withMemory], h.redis⟩, hcall.trans ?_⟩
    exact reachable_go (D.config (D.replica w)).writeReply 0 h.clock h.clock
      (.writeMemoryDone id data elapsed _)

/-- `get_segment` from the fetch on, with the write at time `u`. -/
def Edge.fetch (c : Replica) (size : ℤ) (sleepLimit : ℚ) (s : Edge) (id : String) (bypass : Bool)
    (u elapsed : ℚ) : Edge × Except PyError SegmentResult :=
  match originFetch size sleepLimit c.originLatencySeconds id with
  | .error e => (s, .error e)
  | .ok data =>
    let q := if bypass then (s, .ok ()) else s.write c u (key id) data c.segmentTtlSeconds
    (q.1, q.2.map fun _ => ⟨data, false, elapsed⟩)

section GetSegment

variable (c : Replica) (size : ℤ) (sleepLimit : ℚ) (s : Edge) (id : String) (t : Times)

/-- With the cache bypassed, `get_segment` is the fetch. -/
theorem getSegment_bypass : s.getSegment c size sleepLimit id true t =
    s.fetch c size sleepLimit id true t.write t.elapsed := rfl

variable {s id t}

theorem getSegment_hit {data : Bytes} (h : (s.read c t.lookup (key id)).2 = some data) :
    s.getSegment c size sleepLimit id false t =
      ((s.read c t.lookup (key id)).1, .ok ⟨data, true, 0⟩) := by
  simp [Edge.getSegment, h]

theorem getSegment_miss (h : (s.read c t.lookup (key id)).2 = none) :
    s.getSegment c size sleepLimit id false t =
      (s.read c t.lookup (key id)).1.fetch c size sleepLimit id false t.write t.elapsed := by
  cases hdata : originFetch size sleepLimit c.originLatencySeconds id <;>
    simp [Edge.getSegment, Edge.fetch, h, hdata]

end GetSegment

/-- The fetch from the origin, and the write. -/
theorem Edge.In.reachable_fetch (h : s.In W (D.replica w) now) (hu : now ≤ u) (id : String)
    (bypass : Bool) (elapsed : ℚ) :
    let q := s.fetch (D.config (D.replica w)) D.segmentSizeBytes D.sleepLimit id bypass u elapsed
    ∃ W', q.1.In W' (D.replica w) u ∧
      ReachableBy (aloneStep D w) (GoesOn u (D.config (D.replica w)).writeReply) (W, .origin id bypass)
        (W', .resting (some (id, q.2))) := by
  have hclock : (W.proc (D.replica w)).clock ≤ u := h.clock.le.trans hu
  have htick := h.tick hu
  unfold Edge.fetch
  cases hdata : originFetch D.segmentSizeBytes D.sleepLimit
    (D.config (D.replica w)).originLatencySeconds id with
  | error e =>
    exact ⟨_, htick, ReachableBy.single (goesOn u _ _)
      (aloneStep_go _ elapsed hclock (.fetchRaised id bypass e hdata))⟩
  | ok data =>
    have hfetch := ReachableBy.single (goesOn u _ _)
      (aloneStep_go (D.config (D.replica w)).writeReply elapsed hclock
        (.fetched id bypass data hdata))
    cases bypass with
    | true => exact ⟨_, htick, hfetch⟩
    | false =>
      obtain ⟨W', hW', hwrite⟩ := htick.reachable_write id data elapsed
      exact ⟨W', hW', hfetch.trans hwrite⟩

/-- A call of `get_segment`. -/
theorem Edge.In.reachable_getSegment (h : s.In W (D.replica w) now) (id : String) (bypass : Bool)
    {t : Times} (hnow : now ≤ t.lookup) (ht : t.lookup ≤ t.write)
    (last : Option (String × Except PyError SegmentResult)) :
    let q := s.getSegment (D.config (D.replica w)) D.segmentSizeBytes D.sleepLimit id bypass t
    ∃ W', ∃ u ≤ t.write, q.1.In W' (D.replica w) u ∧ ∃ as,
      Request.Performs (D.config (D.replica w)) s (.getSegment id bypass t) as ∧
        run (aloneStep D w) (W, .resting last) as = some (W', .resting (some (id, q.2))) := by
  intro q
  have hclock : ¬ t.lookup < (W.proc (D.replica w)).clock := not_lt.2 (h.clock.le.trans hnow)
  have hcall : aloneStep D w (W, .resting last) ⟨t.lookup, .getSegment id bypass⟩ =
      some (W.tick (D.replica w) t.lookup, if bypass then .origin id true else .lookup id) := by
    simp [aloneStep, fleetStep, hclock]
  have htick := h.tick hnow
  cases bypass with
  | true =>
    obtain ⟨W', hW', write, hwrite, hfetch⟩ := htick.reachable_fetch ht id true t.elapsed
    rw [← getSegment_bypass] at hW' hfetch
    exact ⟨W', t.write, le_rfl, hW', _, .getSegment id true t [] write (by simp) hwrite,
      (run_cons_eq_some _).2 ⟨_, hcall, hfetch⟩⟩
  | false =>
    obtain ⟨W₁, hread, lookup, hgo, hlookup⟩ := htick.reachable_read id
    cases hcached : (s.read (D.config (D.replica w)) t.lookup (key id)).2 with
    | some data =>
      rw [hcached] at hlookup
      simp only [q, getSegment_hit _ _ _ hcached]
      exact ⟨W₁, t.lookup, ht, hread, _, .getSegment id false t lookup [] hgo (by simp),
        (run_cons_eq_some _).2 ⟨_, hcall, by rwa [List.append_nil]⟩⟩
    | none =>
      rw [hcached] at hlookup
      obtain ⟨W', hW', write, hwrite, hfetch⟩ := hread.reachable_fetch ht id false t.elapsed
      rw [← getSegment_miss _ _ _ hcached] at hW' hfetch
      exact ⟨W', t.write, le_rfl, hW', _, .getSegment id false t lookup write hgo hwrite,
        (run_cons_eq_some _).2 ⟨_, hcall, (run_append_eq_some _).2 ⟨_, hlookup, hfetch⟩⟩⟩

/-- A flush. -/
theorem Edge.In.reachable_flush (h : s.In W (D.replica w) now)
    (last : Option (String × Except PyError SegmentResult)) :
    ∃ W', (s.flush (D.config (D.replica w))).In W' (D.replica w) now ∧
      run (aloneStep D w) (W, .resting last) [⟨now, .flush (.answers true)⟩] =
        some (W', .resting none) := by
  have hclock : ¬ now < (W.proc (D.replica w)).clock := not_lt.2 h.clock.le
  have hflush : aloneStep D w (W, .resting last) ⟨now, .flush (.answers true)⟩ =
      some ((W.flush (D.config (D.replica w)) (D.replica w) (.answers true)).tick (D.replica w) now,
        .resting none) := by
    simp [aloneStep, fleetStep, hclock]
  refine ⟨_, ?_, (run_cons_eq_some _).2 ⟨_, hflush, rfl⟩⟩
  unfold Edge.flush World.flush
  cases (D.config (D.replica w)).backend with
  | redis =>
    refine ⟨by simp [World.tick, h.proc], h.memory, fun k v hk => ?_⟩
    rw [Ttl.read_of_eq_none rfl] at hk
    cases hk
  | memory =>
    exact ⟨by simp [World.tick, h.proc], by simp [World.tick, h.memory], h.redis⟩

/-! ## The requests -/

/-- What the worker keeps of a request. -/
def Request.last : Request → Served → Option (String × Except PyError SegmentResult)
  | .getSegment id _ _, some out => some (id, out)
  | _, _ => none

/-- A request. The clock then reads no more than it must. -/
theorem Edge.In.reachable_call (h : s.In W (D.replica w) now) (e : Request)
    (htimes : (now :: e.times).Pairwise (· ≤ ·))
    (last : Option (String × Except PyError SegmentResult)) :
    let q := edgeCall (D.config (D.replica w)) D.segmentSizeBytes D.sleepLimit s e
    ∃ W' u, (∀ v, (∀ x ∈ now :: e.times, x ≤ v) → u ≤ v) ∧ q.1.In W' (D.replica w) u ∧ ∃ as,
      e.Performs (D.config (D.replica w)) s as ∧
        run (aloneStep D w) (W, .resting last) as = some (W', .resting (e.last q.2)) := by
  cases e with
  | getSegment id bypass t =>
    obtain ⟨hnow, ht⟩ := List.pairwise_cons.1 htimes
    have hlookup : now ≤ t.lookup := hnow _ (by simp [Request.times])
    have hwrite : t.lookup ≤ t.write := (List.pairwise_cons.1 ht).1 _ (by simp)
    obtain ⟨W', u, hu, hIn, hrun⟩ := h.reachable_getSegment id bypass hlookup hwrite last
    exact ⟨W', u, fun v hv => hu.trans (hv _ (by simp [Request.times])), hIn, hrun⟩
  | flush =>
    obtain ⟨W', hIn, hrun⟩ := h.reachable_flush last
    exact ⟨W', now, fun v hv => hv _ (by simp), hIn, _, .flush now, hrun⟩

/-- What it keeps of a history of requests. -/
def keptOf (tr : List (Request × Served)) : Option (String × Except PyError SegmentResult) :=
  tr.getLast?.bind fun x => x.1.last x.2

theorem keptOf_concat (c : Replica) (size : ℤ) (sleepLimit t : ℚ) (es : List Request)
    (e : Request) :
    keptOf (served c size sleepLimit t (es ++ [e])) =
      e.last (edgeCall c size sleepLimit
        (after (edgeCall c size sleepLimit) (Edge.new c t) es) e).2 := by
  simp [keptOf, served, transcript_concat]

omit [DecidableEq ρ] in
theorem in_launch (D : Deployment ω ρ) (t : ρ → ℚ) (r : ρ) :
    (Edge.new (D.config r) (t r)).In (launch D t).shared r (t r) where
  proc := by cases hb : (D.config r).backend <;> simp [launch, Edge.new, procInit, hb] <;> rfl
  memory := rfl
  redis := fun k v hk => by cases hk

/-- A history of requests. -/
theorem run_requests (D : Deployment ω ρ) (w : ω) (t : ρ → ℚ) {es : List Request}
    (hclock : (t (D.replica w) :: es.flatMap Request.times).Pairwise (· ≤ ·)) :
    ∃ blocks, List.Forall₂ (fun x => x.2.Performs (D.config (D.replica w)) x.1)
        (states (edgeCall (D.config (D.replica w)) D.segmentSizeBytes D.sleepLimit)
          (Edge.new (D.config (D.replica w)) (t (D.replica w))) es) blocks ∧ (∀ n, ∃ W',
        run (aloneStep D w) ((launch D t).shared, .resting none) (blocks.take n).flatten =
          some (W', .resting (keptOf (served (D.config (D.replica w)) D.segmentSizeBytes D.sleepLimit
            (t (D.replica w)) (es.take n))))) ∧
      ∃ W' u, (∀ v, (∀ x ∈ t (D.replica w) :: es.flatMap Request.times, x ≤ v) → u ≤ v) ∧
        (after (edgeCall (D.config (D.replica w)) D.segmentSizeBytes D.sleepLimit)
          (Edge.new (D.config (D.replica w)) (t (D.replica w))) es).In W' (D.replica w) u ∧
        run (aloneStep D w) ((launch D t).shared, .resting none) blocks.flatten =
          some (W', .resting (keptOf (served (D.config (D.replica w)) D.segmentSizeBytes D.sleepLimit
            (t (D.replica w)) es))) := by
  induction es using List.reverseRecOn with
  | nil =>
    exact ⟨[], .nil, fun n => ⟨_, by rw [List.take_nil, List.take_nil]; rfl⟩, (launch D t).shared,
      t (D.replica w), fun v hv => hv _ (by simp), in_launch D t _, rfl⟩
  | append_singleton es e ih =>
    rw [List.flatMap_append, ← List.cons_append] at hclock
    obtain ⟨hes, he, hcross⟩ := List.pairwise_append.1 hclock
    obtain ⟨blocks, hblocks, hprefix, W₁, u, hu, hIn, hrun⟩ := ih hes
    have hnext : ∀ v ∈ e.times, u ≤ v := fun v hv =>
      hu v fun x hx => hcross x hx v (by simpa using hv)
    have htimes : (u :: e.times).Pairwise (· ≤ ·) :=
      List.pairwise_cons.2 ⟨hnext, by simpa using he⟩
    obtain ⟨W₂, u', hu', hIn', block, hblock, hrun'⟩ := hIn.reachable_call e htimes _
    have hall : run (aloneStep D w) ((launch D t).shared, .resting none)
        (blocks ++ [block]).flatten = some (W₂, .resting (keptOf (served
          (D.config (D.replica w)) D.segmentSizeBytes D.sleepLimit (t (D.replica w))
          (es ++ [e])))) := by
      rw [keptOf_concat, List.flatten_concat]
      exact (run_append_eq_some _).2 ⟨_, hrun, hrun'⟩
    have hlength : es.length = blocks.length := by simpa using hblocks.length_eq
    refine ⟨blocks ++ [block], ?_, fun n => ?_, W₂, u', fun v hv => ?_, ?_, hall⟩
    · rw [states_concat]
      exact List.rel_append hblocks (.cons hblock .nil)
    · rcases Nat.lt_or_ge es.length n with hlt | hle
      · rw [List.take_of_length_le (by simp [← hlength]; omega),
          List.take_of_length_le (by simp; omega)]
        exact ⟨W₂, hall⟩
      · rw [List.take_append_of_le_length (hlength ▸ hle), List.take_append_of_le_length hle]
        exact hprefix n
    · have hpre : u ≤ v := hu v fun x hx => hv x (by
        simp only [List.flatMap_append, ← List.cons_append]
        exact List.mem_append_left _ hx)
      have hlast : ∀ x ∈ e.times, x ≤ v := fun x hx => hv x (by simp [hx])
      exact hu' v (List.forall_mem_cons.2 ⟨hpre, hlast⟩)
    · rwa [after_concat]

variable [DecidableEq ω]

/-- **The requests of one worker**: a worker that performs a history of requests, while no other
worker takes a step, gets the replies of the cache one after the other: after its steps for the
first `n` requests it has the reply to the last one of these. -/
theorem served_by_worker (D : Deployment ω ρ) (w : ω) (t : ρ → ℚ) {es : List Request}
    (hclock : (t (D.replica w) :: es.flatMap Request.times).Pairwise (· ≤ ·)) :
    ∃ blocks, List.Forall₂ (fun x => x.2.Performs (D.config (D.replica w)) x.1)
        (states (edgeCall (D.config (D.replica w)) D.segmentSizeBytes D.sleepLimit)
          (Edge.new (D.config (D.replica w)) (t (D.replica w))) es) blocks ∧ ∀ n, ∃ s',
      run (Pool.step (fleetStep D)) (launch D t)
          ((blocks.take n).flatten.map fun a => (w, a)) = some s' ∧
        s'.thread w = .resting (keptOf (served (D.config (D.replica w)) D.segmentSizeBytes
          D.sleepLimit (t (D.replica w)) (es.take n))) := by
  obtain ⟨blocks, hblocks, hprefix, -⟩ := run_requests D w t hclock
  refine ⟨blocks, hblocks, fun n => ?_⟩
  obtain ⟨W', hrun⟩ := hprefix n
  exact ⟨_, Pool.run_alone (s := launch D t) (w := w) hrun, by simp⟩

/-- One worker of a replica whose entries expire after ten seconds. -/
def alone : Deployment Unit Unit where
  replica := id
  config := fun _ => tenSeconds
  segmentSizeBytes := 4
  sleepLimit := 100

/-- The same segment twice. -/
def twice : List Request :=
  [.getSegment "a" false ⟨1, 2, 3 / 20⟩, .getSegment "a" false ⟨3, 3, 0⟩]

/-- The worker finds it the second time. -/
theorem served_by_worker_twice : ∃ first second s',
    (twice[0]).Performs tenSeconds (Edge.new tenSeconds 0) first ∧
      (twice[1]).Performs tenSeconds (edgeCall tenSeconds 4 100 (Edge.new tenSeconds 0) twice[0]).1
        second ∧
      run (Pool.step (fleetStep alone)) (launch alone fun _ => 0)
        ((first ++ second).map fun a => ((), a)) = some s' ∧
      s'.thread () = .resting (some ("a", .ok ⟨[0x61, 0x61, 0x61, 0x61], true, 0⟩)) := by
  have hclock : (0 :: twice.flatMap Request.times).Pairwise (· ≤ ·) := by decide +kernel
  obtain ⟨blocks, hblocks, hserved⟩ := served_by_worker alone () (fun _ => 0) hclock
  obtain ⟨first, rest, hfirst, hrest, rfl⟩ := List.forall₂_cons_left_iff.1 hblocks
  obtain ⟨second, rest, hsecond, hnil, rfl⟩ := List.forall₂_cons_left_iff.1 hrest
  obtain rfl := List.forall₂_nil_left_iff.1 hnil
  obtain ⟨s', hs, hw⟩ := hserved 2
  exact ⟨first, second, s', hfirst, hsecond, by simpa using hs,
    hw.trans (congrArg Worker.resting (by decide +kernel))⟩

end EdgeCache.Cache
