import EdgeCache.Cache.Guard
import EdgeCache.Cache.MemoryStore

/-!
# Replicas that share one Redis

The whole of `Cache`: any number of workers, each in one of any number of replicas, run
`get_segment(id, bypass)` and `flush` again and again. A replica has its own process state,
in-memory store, clock and configuration, strict or memory; all of them share one Redis and the
segment size.

`fleetStep` is one atomic step of a worker. The events choose what the environment does: what the
worker is asked for, what the clock reads, and how a Redis call goes (`Reply`): it may raise, having
taken effect or not, and an entry may have expired or been evicted at any call.

`segmentStep_iff` and `fleetStep_effect` say all that a step can do.
-/

namespace EdgeCache.Cache

open Breaker Transition

/-! ## Redis -/

/-- The entries of Redis. -/
abbrev RedisStore := String → Option Bytes

/-- How a call of the Redis client goes. -/
inductive Reply
  /-- It raises an exception, and may have taken effect all the same. -/
  | raises (applied : Bool)
  /-- It returns; `kept` is false when the entry turns out to have expired or been evicted. -/
  | answers (kept : Bool)
  deriving DecidableEq, Repr

/-- `client.get(key)`: the entries afterwards, and what it returns unless it raises. -/
def clientGet (key : String) (reply : Reply) (store : RedisStore) :
    RedisStore × Option (Option Bytes) :=
  match reply with
  | .raises _ => (store, none)
  | .answers true => (store, some (store key))
  | .answers false => (Function.update store key none, some none)

/-- `client.set(key, value, ex=ttl)`. -/
def clientSet (key : String) (value : Bytes) (reply : Reply) (store : RedisStore) :
    RedisStore × Option Unit :=
  match reply with
  | .raises false => (store, none)
  | .raises true => (Function.update store key (some value), none)
  | .answers true => (Function.update store key (some value), some ())
  | .answers false => (Function.update store key none, some ())

/-- `client.flushdb()`, whose exceptions `flush` discards. -/
def clientFlushdb (reply : Reply) (store : RedisStore) : RedisStore :=
  match reply with
  | .raises false => store
  | _ => fun _ => none

/-! ## The replicas -/

/-- The backend that `Cache.__init__` has chosen. -/
inductive Backend
  | redis
  | memory
  deriving DecidableEq, Repr

/-- The configuration of a replica. -/
structure Replica where
  backend : Backend
  guard : Config
  segmentTtlSeconds : ℤ
  originLatencySeconds : PyFloat

/-- Which replica each worker belongs to, the configurations, and what is common to all. -/
structure Deployment (ω ρ : Type*) where
  replica : ω → ρ
  config : ρ → Replica
  segmentSizeBytes : ℤ
  /-- The longest duration that `time.sleep` accepts. -/
  sleepLimit : ℚ

/-- Redis, and the process and the in-memory store of each replica. -/
structure World (ρ : Type*) where
  redis : RedisStore
  proc : ρ → Proc
  memory : ρ → MemoryStore

/-- The result of `get_segment`. -/
structure SegmentResult where
  data : Bytes
  cacheHit : Bool
  originFetchSeconds : ℚ
  deriving DecidableEq

/-- The attributes of the `cache.lookup` span that describe the breaker. -/
structure LookupSpan where
  circuitState : CbState
  redisSkipped : Bool
  deriving DecidableEq

/-- Where a worker is. -/
inductive Worker
  /-- In no call; its last call was a `get_segment`, with that id and outcome, or anything else. -/
  | resting (last : Option (String × Except PyError SegmentResult))
  | lookup (id : String)
  | reading (id : String) (span : LookupSpan) (g : Guard (Option Bytes))
  | readingMemory (id : String) (span : LookupSpan) (m : MemGet)
  | origin (id : String) (bypass : Bool)
  | writing (id : String) (data : Bytes) (elapsed : ℚ) (g : Guard Unit)
  | writingMemory (id : String) (data : Bytes) (elapsed : ℚ) (m : MemSet)
  deriving DecidableEq

/-- What a step is given by the environment. -/
inductive Input
  | getSegment (id : String) (bypass : Bool)
  | flush (reply : Reply)
  /-- The worker goes on with its call. -/
  | go (reply : Reply) (elapsed : ℚ)

/-- A reading of the replica's clock, and the input. -/
structure FleetAct where
  now : ℚ
  input : Input

/-- `Cache.breaker_state`. -/
def breakerState (c : Replica) (p : Proc) : CbState :=
  match c.backend, c.guard.cbEnabled with
  | .redis, true => p.breaker.state
  | _, _ => .closed

/-- The span that `get_segment` opens before the lookup. -/
def lookupSpan (c : Replica) (p : Proc) : LookupSpan where
  circuitState := breakerState c p
  redisSkipped := breakerState c p = .opened

/-- The fetch from the origin: it sleeps, and makes the bytes of the segment. -/
def originFetch (size : ℤ) (sleepLimit : ℚ) (originLatency : PyFloat) (id : String) :
    Except PyError Bytes := do
  PyFloat.timeSleep sleepLimit originLatency
  generateSegmentBytes size id

/-- How `_write` ends, which catches the exceptions of Redis but not those of the in-memory
store. -/
def writeOutcome (b : Backend) (ttl : ℤ) : Except PyError Unit :=
  match b with
  | .redis => .ok ()
  | .memory => memSetOutcome ttl

/-- `get_segment` as its caller sees it, when a lookup finds `cached`, a fetch from the origin takes
`elapsed` seconds and a write ends with `write`. -/
def segmentOutcome (size : ℤ) (sleepLimit : ℚ) (originLatency : PyFloat)
    (write : Except PyError Unit) (id : String) (bypass : Bool) (cached : Option Bytes) (elapsed : ℚ) :
    Except PyError SegmentResult :=
  match if bypass then none else cached with
  | some data => .ok ⟨data, true, 0⟩
  | none => do
    let data ← originFetch size sleepLimit originLatency id
    unless bypass do write
    return ⟨data, false, elapsed⟩

/-- `get_segment` after the lookup: a hit, or a fetch from the origin. -/
def afterRead (id : String) : Option Bytes → Worker
  | some cached => .resting (some (id, .ok ⟨cached, true, 0⟩))
  | none => .origin id false

/-- `get_segment` after a fetch from the origin which took `elapsed` seconds. -/
def afterFetch (c : Replica) (id : String) (bypass : Bool) (data : Bytes) (elapsed : ℚ) : Worker :=
  if bypass then .resting (some (id, .ok ⟨data, false, elapsed⟩))
  else
    match c.backend with
    | .redis => .writing id data elapsed .allow
    | .memory => .writingMemory id data elapsed .stamp

variable {ω ρ : Type*}

/-- The fetch of segment `id` by replica `r`. -/
def Deployment.fetch (D : Deployment ω ρ) (r : ρ) (id : String) : Except PyError Bytes :=
  originFetch D.segmentSizeBytes D.sleepLimit (D.config r).originLatencySeconds id

variable [DecidableEq ρ]

/-- The next step is the client call. -/
def Guard.atRedis {ν : Type*} : Guard ν → Bool
  | .redis => true
  | _ => false

/-- One step of a call behind the breaker of replica `r`, whose client call is `call`. -/
def World.guard {ν : Type*} (W : World ρ) (c : Replica) (r : ρ) (now : ℚ)
    (call : RedisStore → RedisStore × Option ν) (g : Guard ν) : Option (World ρ × Guard ν) :=
  let reply := if g.atRedis then call W.redis else (W.redis, none)
  (guardStep c.guard now reply.2 (W.proc r) g).map fun q =>
    ({ W with redis := reply.1, proc := Function.update W.proc r q.1 }, q.2)

/-- One step of a call on the in-memory store of replica `r`. -/
def World.inMemory {τ : Type*} (W : World ρ) (r : ρ)
    (call : MemoryStore → Option (MemoryStore × τ)) : Option (World ρ × τ) :=
  (call (W.memory r)).map fun q => ({ W with memory := Function.update W.memory r q.1 }, q.2)

/-- `Cache.flush`. -/
def World.flush (W : World ρ) (c : Replica) (r : ρ) (reply : Reply) : World ρ :=
  match c.backend with
  | .redis => { W with redis := clientFlushdb reply W.redis }
  | .memory => { W with memory := Function.update W.memory r (memFlushdb (W.memory r)) }

/-- The next step of a worker in `get_segment`. -/
def segmentStep (D : Deployment ω ρ) (r : ρ) (now : ℚ) (reply : Reply) (elapsed : ℚ) (W : World ρ) :
    Worker → Option (World ρ × Worker)
  | .resting _ => none
  | .lookup id =>
    let span := lookupSpan (D.config r) (W.proc r)
    some (W, match (D.config r).backend with
      | .redis => .reading id span .allow
      | .memory => .readingMemory id span .lookup)
  | .reading id _ (.done o) => some (W, afterRead id o.value.join)
  | .reading id span g =>
    (W.guard (D.config r) r now (clientGet (key id) reply) g).map fun q =>
      (q.1, .reading id span q.2)
  | .readingMemory id _ (.done cached) => some (W, afterRead id cached)
  | .readingMemory id span m =>
    (W.inMemory r fun M => memGetStep (key id) now M m).map fun q =>
      (q.1, .readingMemory id span q.2)
  | .origin id bypass =>
    some (W, match D.fetch r id with
      | .error e => .resting (some (id, .error e))
      | .ok data => afterFetch (D.config r) id bypass data elapsed)
  | .writing id data elapsed (.done _) =>
    some (W, .resting (some (id, .ok ⟨data, false, elapsed⟩)))
  | .writing id data elapsed g =>
    (W.guard (D.config r) r now (clientSet (key id) data reply) g).map fun q =>
      (q.1, .writing id data elapsed q.2)
  | .writingMemory id data elapsed (.done written) =>
    some (W, .resting (some (id, written.map fun _ => ⟨data, false, elapsed⟩)))
  | .writingMemory id data elapsed m =>
    (W.inMemory r fun M =>
      memSetStep (key id) data (D.config r).segmentTtlSeconds now M m).map fun q =>
        (q.1, .writingMemory id data elapsed q.2)

/-- The clock of replica `r` reads `now`. -/
def World.tick (W : World ρ) (r : ρ) (now : ℚ) : World ρ :=
  { W with proc := Function.update W.proc r { W.proc r with clock := now } }

/-- One step of worker `w`. -/
def fleetStep (D : Deployment ω ρ) (w : ω) (W : World ρ) (t : Worker) (a : FleetAct) :
    Option (World ρ × Worker) :=
  let r := D.replica w
  if a.now < (W.proc r).clock then none
  else
    Option.map (fun q => (q.1.tick r a.now, q.2)) <|
      match a.input, t with
      | .getSegment id bypass, .resting _ =>
        some (W, if bypass then .origin id true else .lookup id)
      | .flush reply, .resting _ => some (W.flush (D.config r) r reply, .resting none)
      | .go reply elapsed, t => segmentStep D r a.now reply elapsed W t
      | _, _ => none

/-- The process of a replica after `Cache.__init__`. -/
def procInit (b : Backend) (t : ℚ) : Proc :=
  match b with
  | .redis => Proc.init t
  | .memory => { Proc.init t with lastRedisOk := false, redisUp := 0 }

/-- The replicas and their workers. -/
abbrev Fleet (ω ρ : Type*) := Pool ω (World ρ) Worker

/-- New replicas, whose clocks read `t`, with empty stores and nothing to do. -/
def launch (D : Deployment ω ρ) (t : ρ → ℚ) : Fleet ω ρ where
  shared :=
    { redis := fun _ => none
      proc := fun r => procInit (D.config r).backend (t r)
      memory := fun _ _ => none }
  thread := fun _ => .resting none

/-! ## What a step can do -/

variable {D : Deployment ω ρ} {W W' : World ρ} {r : ρ} {now : ℚ} {reply : Reply} {elapsed : ℚ}

/-- **What a step behind the breaker can do**: it changes the process as the call says, and Redis by
the client call only. -/
theorem guard_eq_some {ν : Type*} {c : Replica} {call : RedisStore → RedisStore × Option ν}
    {g g' : Guard ν} :
    W.guard c r now call g = some (W', g') ↔ ∃ p,
      guardStep c.guard now (if g.atRedis then (call W.redis).2 else none) (W.proc r) g =
          some (p, g') ∧
        W' = { W with
          redis := if g.atRedis then (call W.redis).1 else W.redis
          proc := Function.update W.proc r p } := by
  simp only [World.guard, Option.map_eq_some_iff, Prod.exists, Prod.mk.injEq]
  constructor
  · rintro ⟨p, g₁, hq, rfl, rfl⟩
    exact ⟨p, by split_ifs at hq ⊢ <;> exact hq, by split_ifs <;> rfl⟩
  · rintro ⟨p, hq, rfl⟩
    exact ⟨p, g', by split_ifs at hq ⊢ <;> exact hq, by split_ifs <;> rfl, rfl⟩

/-- **What a step of a call of the in-memory store can do.** -/
theorem inMemory_eq_some {τ : Type*} {call : MemoryStore → Option (MemoryStore × τ)} {t : τ} :
    W.inMemory r call = some (W', t) ↔ ∃ m, call (W.memory r) = some (m, t) ∧
      W' = { W with memory := Function.update W.memory r m } := by
  simp only [World.inMemory, Option.map_eq_some_iff, Prod.exists, Prod.mk.injEq]
  constructor
  · rintro ⟨m, t₁, hq, rfl, rfl⟩
    exact ⟨m, hq, rfl⟩
  · rintro ⟨m, hq, rfl⟩
    exact ⟨m, t, hq, rfl, rfl⟩

/-- The effect of a step of `get_segment`, by where the worker is. -/
inductive SegmentEffect (D : Deployment ω ρ) (r : ρ) (now : ℚ) (reply : Reply) (elapsed : ℚ)
    (W : World ρ) : Worker → World ρ → Worker → Prop
  | lookup (id : String) : (D.config r).backend = .redis →
      SegmentEffect D r now reply elapsed W (.lookup id) W
        (.reading id (lookupSpan (D.config r) (W.proc r)) .allow)
  | lookupMemory (id : String) : (D.config r).backend = .memory →
      SegmentEffect D r now reply elapsed W (.lookup id) W
        (.readingMemory id (lookupSpan (D.config r) (W.proc r)) .lookup)
  | read (id : String) (span : LookupSpan) (g g' : Guard (Option Bytes)) (W' : World ρ) :
      W.guard (D.config r) r now (clientGet (key id) reply) g = some (W', g') →
      SegmentEffect D r now reply elapsed W (.reading id span g) W' (.reading id span g')
  | readDone (id : String) (span : LookupSpan) (o : Outcome (Option Bytes)) :
      SegmentEffect D r now reply elapsed W (.reading id span (.done o)) W
        (afterRead id o.value.join)
  | readMemory (id : String) (span : LookupSpan) (m m' : MemGet) (W' : World ρ) :
      W.inMemory r (fun M => memGetStep (key id) now M m) = some (W', m') →
      SegmentEffect D r now reply elapsed W (.readingMemory id span m) W'
        (.readingMemory id span m')
  | readMemoryDone (id : String) (span : LookupSpan) (cached : Option Bytes) :
      SegmentEffect D r now reply elapsed W (.readingMemory id span (.done cached)) W
        (afterRead id cached)
  | fetchRaised (id : String) (bypass : Bool) (e : PyError) : D.fetch r id = .error e →
      SegmentEffect D r now reply elapsed W (.origin id bypass) W (.resting (some (id, .error e)))
  | fetched (id : String) (bypass : Bool) (data : Bytes) : D.fetch r id = .ok data →
      SegmentEffect D r now reply elapsed W (.origin id bypass) W
        (afterFetch (D.config r) id bypass data elapsed)
  | write (id : String) (data : Bytes) (e : ℚ) (g g' : Guard Unit) (W' : World ρ) :
      W.guard (D.config r) r now (clientSet (key id) data reply) g = some (W', g') →
      SegmentEffect D r now reply elapsed W (.writing id data e g) W' (.writing id data e g')
  | writeDone (id : String) (data : Bytes) (e : ℚ) (o : Outcome Unit) :
      SegmentEffect D r now reply elapsed W (.writing id data e (.done o)) W
        (.resting (some (id, .ok ⟨data, false, e⟩)))
  | writeMemory (id : String) (data : Bytes) (e : ℚ) (m m' : MemSet) (W' : World ρ) :
      W.inMemory r (fun M => memSetStep (key id) data (D.config r).segmentTtlSeconds now M m) =
        some (W', m') →
      SegmentEffect D r now reply elapsed W (.writingMemory id data e m) W'
        (.writingMemory id data e m')
  | writeMemoryDone (id : String) (data : Bytes) (e : ℚ) (written : Except PyError Unit) :
      SegmentEffect D r now reply elapsed W (.writingMemory id data e (.done written)) W
        (.resting (some (id, written.map fun _ => ⟨data, false, e⟩)))

omit [DecidableEq ρ] in
/-- A step of a call within that of a worker. -/
theorem map_call_eq_some {τ τ' : Type*} {q : Option (World ρ × τ)} {f : τ → τ'} {t' : τ'} :
    q.map (fun q => (q.1, f q.2)) = some (W', t') ↔ ∃ t, q = some (W', t) ∧ f t = t' := by
  simp only [Option.map_eq_some_iff, Prod.exists, Prod.mk.injEq]
  constructor
  · rintro ⟨W₁, t, hq, rfl, ht⟩
    exact ⟨t, hq, ht⟩
  · rintro ⟨t, hq, ht⟩
    exact ⟨W', t, hq, rfl, ht⟩

/-- **What a step of `get_segment` can do.** -/
theorem segmentStep_iff {t t' : Worker} :
    segmentStep D r now reply elapsed W t = some (W', t') ↔
      SegmentEffect D r now reply elapsed W t W' t' := by
  constructor
  · intro h
    cases t with
    | resting => cases h
    | lookup id =>
      obtain ⟨rfl, rfl⟩ := Prod.mk.inj (Option.some.inj h)
      cases hb : (D.config r).backend with
      | redis => exact .lookup id hb
      | memory => exact .lookupMemory id hb
    | reading id span g =>
      cases g with
      | done o =>
        obtain ⟨rfl, rfl⟩ := Prod.mk.inj (Option.some.inj h)
        exact .readDone id span o
      | allow | redis | success | failure | setOk | setUp | countError =>
        simp only [segmentStep] at h
        obtain ⟨g', hq, rfl⟩ := map_call_eq_some.1 h
        exact .read id span _ g' _ hq
    | readingMemory id span m =>
      cases m with
      | done cached =>
        obtain ⟨rfl, rfl⟩ := Prod.mk.inj (Option.some.inj h)
        exact .readMemoryDone id span cached
      | lookup | check | pop =>
        simp only [segmentStep] at h
        obtain ⟨m', hq, rfl⟩ := map_call_eq_some.1 h
        exact .readMemory id span _ m' _ hq
    | origin id bypass =>
      obtain ⟨rfl, rfl⟩ := Prod.mk.inj (Option.some.inj h)
      cases he : D.fetch r id with
      | error e => exact .fetchRaised id bypass e he
      | ok data => exact .fetched id bypass data he
    | writing id data e g =>
      cases g with
      | done o =>
        obtain ⟨rfl, rfl⟩ := Prod.mk.inj (Option.some.inj h)
        exact .writeDone id data e o
      | allow | redis | success | failure | setOk | setUp | countError =>
        simp only [segmentStep] at h
        obtain ⟨g', hq, rfl⟩ := map_call_eq_some.1 h
        exact .write id data e _ g' _ hq
    | writingMemory id data e m =>
      cases m with
      | done written =>
        obtain ⟨rfl, rfl⟩ := Prod.mk.inj (Option.some.inj h)
        exact .writeMemoryDone id data e written
      | stamp | assign =>
        simp only [segmentStep] at h
        obtain ⟨m', hq, rfl⟩ := map_call_eq_some.1 h
        exact .writeMemory id data e _ m' _ hq
  · intro h
    cases h with
    | lookup id hb | lookupMemory id hb => simp only [segmentStep, hb]
    | read id span g g' W' hq | write id data e g g' W' hq =>
      cases g with
      | done => cases hq
      | allow | redis | success | failure | setOk | setUp | countError =>
        simp only [segmentStep, hq, Option.map_some]
    | readMemory id span m m' W' hq =>
      cases m with
      | done => cases hq
      | lookup | check | pop => simp only [segmentStep, hq, Option.map_some]
    | writeMemory id data e m m' W' hq =>
      cases m with
      | done => cases hq
      | stamp | assign => simp only [segmentStep, hq, Option.map_some]
    | fetchRaised id bypass e he => simp only [segmentStep, he]
    | fetched id bypass data he => simp only [segmentStep, he]
    | readDone | readMemoryDone | writeDone | writeMemoryDone => rfl

/-- The effect of a step of a worker of replica `r`, before its clock is set. -/
inductive FleetEffect (D : Deployment ω ρ) (r : ρ) (now : ℚ) (W : World ρ) :
    Worker → World ρ → Worker → Prop
  | call (last : Option (String × Except PyError SegmentResult)) (id : String) (bypass : Bool) :
      FleetEffect D r now W (.resting last) W (if bypass then .origin id true else .lookup id)
  | flush (last : Option (String × Except PyError SegmentResult)) (reply : Reply) :
      FleetEffect D r now W (.resting last) (W.flush (D.config r) r reply) (.resting none)
  | go (reply : Reply) (elapsed : ℚ) {t t' : Worker} {W' : World ρ} :
      SegmentEffect D r now reply elapsed W t W' t' → FleetEffect D r now W t W' t'

/-- **What a step of a worker can do.** -/
theorem fleetStep_effect {w : ω} {t t' : Worker} {a : FleetAct}
    (h : fleetStep D w W t a = some (W', t')) :
    (W.proc (D.replica w)).clock ≤ a.now ∧ ∃ W₁, W' = W₁.tick (D.replica w) a.now ∧
      FleetEffect D (D.replica w) a.now W t W₁ t' := by
  simp only [fleetStep] at h
  split_ifs at h with hnow
  obtain ⟨⟨W₁, t₁⟩, hq, heq⟩ := Option.map_eq_some_iff.1 h
  obtain ⟨rfl, rfl⟩ := Prod.mk.inj heq
  refine ⟨not_lt.1 hnow, W₁, rfl, ?_⟩
  split at hq
  · next id bypass last _ =>
    obtain ⟨rfl, rfl⟩ := Prod.mk.inj (Option.some.inj hq)
    exact .call last id bypass
  · next reply last _ =>
    obtain ⟨rfl, rfl⟩ := Prod.mk.inj (Option.some.inj hq)
    exact .flush last reply
  · next reply elapsed _ => exact .go reply elapsed (segmentStep_iff.1 hq)
  · cases hq

/-! ## What a step with a given input can do -/

theorem fleetStep_getSegment {w : ω} {t t' : Worker} {id : String} {bypass : Bool} :
    fleetStep D w W t ⟨now, .getSegment id bypass⟩ = some (W', t') ↔
      (W.proc (D.replica w)).clock ≤ now ∧ (∃ last, t = .resting last) ∧
        W' = W.tick (D.replica w) now ∧ t' = if bypass then .origin id true else .lookup id := by
  simp only [fleetStep]
  cases t with
  | resting last =>
    by_cases hnow : now < (W.proc (D.replica w)).clock
    · simp [hnow]
    · simp [hnow, not_lt.1 hnow, eq_comm]
  | lookup | reading | readingMemory | origin | writing | writingMemory => simp

theorem fleetStep_flush {w : ω} {t t' : Worker} :
    fleetStep D w W t ⟨now, .flush reply⟩ = some (W', t') ↔
      (W.proc (D.replica w)).clock ≤ now ∧ (∃ last, t = .resting last) ∧
        W' = (W.flush (D.config (D.replica w)) (D.replica w) reply).tick (D.replica w) now ∧
        t' = .resting none := by
  simp only [fleetStep]
  cases t with
  | resting last =>
    by_cases hnow : now < (W.proc (D.replica w)).clock
    · simp [hnow]
    · simp [hnow, not_lt.1 hnow, eq_comm]
  | lookup | reading | readingMemory | origin | writing | writingMemory => simp

theorem fleetStep_go {w : ω} {t t' : Worker} :
    fleetStep D w W t ⟨now, .go reply elapsed⟩ = some (W', t') ↔
      (W.proc (D.replica w)).clock ≤ now ∧
        ∃ W₁, SegmentEffect D (D.replica w) now reply elapsed W t W₁ t' ∧
          W' = W₁.tick (D.replica w) now := by
  simp only [fleetStep]
  by_cases hnow : now < (W.proc (D.replica w)).clock
  · simp [hnow]
  · simp only [hnow, if_false, not_lt.1 hnow, true_and, Option.map_eq_some_iff, Prod.exists,
      Prod.mk.injEq, ← segmentStep_iff]
    constructor
    · rintro ⟨W₁, t₁, h, rfl, rfl⟩
      exact ⟨W₁, h, rfl⟩
    · rintro ⟨W₁, h, rfl⟩
      exact ⟨W₁, t', h, rfl, rfl⟩

end EdgeCache.Cache
