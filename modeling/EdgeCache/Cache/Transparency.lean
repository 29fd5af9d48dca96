import EdgeCache.Cache.Outcome

/-!
# The cache is transparent

Whatever Redis, the breaker, the clocks and the other workers do, `get_segment(id)` returns the
bytes that the origin makes from `id`, unless there are too many of them, or a miss is to be cached
in memory for longer than a float can say (`get_segment_transparent`, `memory_write_raises`).

The invariant has two parts. The stores are sound: they hold, under the key of each segment, the
bytes of that segment (`World.Sound`). And so is every worker: what it has read, and what it is
about to write, are the bytes of the segment that it was asked for (`Worker.Sound`). The assertion
of a worker does not mention the stores, so the other workers cannot break it. What a call raises is
one of its outcomes (`raises_of_outcome`).

`Worker.rank` bounds the steps which a worker has yet to take, and no step of it can be blocked. So
every call returns.
-/

namespace EdgeCache.Cache

open Transition

/-! ## The Redis client -/

section Client

variable {origin : String → Except PyError Bytes} {store : RedisStore} {id : String}

/-- Redis holds the right bytes for every segment. -/
abbrev RedisFaithful (origin : String → Except PyError Bytes) (store : RedisStore) : Prop :=
  Faithful (fun b => b) origin store

theorem faithful_clientGet (h : RedisFaithful origin store) (reply : Reply) :
    RedisFaithful origin (clientGet (key id) reply store).1 := by
  cases reply with
  | raises => exact h
  | answers kept =>
    cases kept with
    | true => exact h
    | false => exact h.update (by simp)

theorem eq_of_clientGet (h : RedisFaithful origin store) {reply : Reply} {v : Bytes}
    (hv : (clientGet (key id) reply store).2 = some (some v)) : origin id = .ok v := by
  cases reply with
  | raises => cases hv
  | answers kept =>
    cases kept with
    | true => exact h id v (Option.some.inj hv)
    | false => cases hv

theorem faithful_clientSet (h : RedisFaithful origin store) {data : Bytes}
    (hdata : origin id = .ok data) (reply : Reply) :
    RedisFaithful origin (clientSet (key id) data reply store).1 := by
  cases reply with
  | raises applied =>
    cases applied with
    | true => exact h.update (by simp [hdata])
    | false => exact h
  | answers kept =>
    cases kept with
    | true => exact h.update (by simp [hdata])
    | false => exact h.update (by simp)

theorem faithful_clientFlushdb (h : RedisFaithful origin store) (reply : Reply) :
    RedisFaithful origin (clientFlushdb reply store) := by
  unfold clientFlushdb
  split
  · exact h
  · exact faithful_empty _ _

end Client

/-! ## The invariant -/

variable {ω ρ : Type*} [DecidableEq ρ]

/-- Redis and the in-memory stores hold the right bytes. -/
structure World.Sound (size : ℤ) (W : World ρ) : Prop where
  redis : RedisFaithful (generateSegmentBytes size) W.redis
  memory : ∀ r, Faithful Prod.fst (generateSegmentBytes size) (W.memory r)

/-- What the worker has in hand are the bytes of its segment, and it has returned nothing else. -/
def Worker.Sound (size : ℤ) : Worker → Prop
  | .resting (some (id, .ok out)) => generateSegmentBytes size id = .ok out.data
  | .reading id _ g => ∀ v, g.found = some (some v) → generateSegmentBytes size id = .ok v
  | .readingMemory id _ m => ∀ v ∈ m.found, generateSegmentBytes size id = .ok v
  | .writing id data _ _ => generateSegmentBytes size id = .ok data
  | .writingMemory id data _ _ => generateSegmentBytes size id = .ok data
  | _ => True

/-- A bound on the steps that the worker has yet to take before its call returns. -/
def Worker.rank : Worker → ℕ
  | .resting _ => 0
  | .lookup _ => 16
  | .reading _ _ g => 9 + g.rank
  | .readingMemory _ _ m => 9 + m.rank
  | .origin _ _ => 8
  | .writing _ _ _ g => 1 + g.rank
  | .writingMemory _ _ _ m => 1 + m.rank

variable {D : Deployment ω ρ} {W W' : World ρ} {r : ρ} {now : ℚ}

theorem World.Sound.tick {size : ℤ} (h : W.Sound size) : (W.tick r now).Sound size :=
  ⟨h.redis, h.memory⟩

theorem World.Sound.flush {size : ℤ} (h : W.Sound size) (c : Replica) (reply : Reply) :
    (W.flush c r reply).Sound size := by
  unfold World.flush
  split
  · exact ⟨faithful_clientFlushdb h.redis reply, h.memory⟩
  · refine ⟨h.redis, fun r' => ?_⟩
    rcases eq_or_ne r' r with rfl | hne
    · simp only [Function.update_self]
      exact faithful_empty _ _
    · simpa [hne] using h.memory r'

/-- A step behind the breaker changes Redis by the client call only, and finds only what that
returns. -/
theorem guard_cases {ν : Type*} {c : Replica} {call : RedisStore → RedisStore × Option ν}
    {g g' : Guard ν} (h : W.guard c r now call g = some (W', g')) :
    W'.memory = W.memory ∧
      ((W'.redis = (call W.redis).1 ∧ g'.found = (call W.redis).2) ∨
        (W'.redis = W.redis ∧ ∀ v ∈ g'.found, v ∈ g.found)) := by
  obtain ⟨p, hq, rfl⟩ := guard_eq_some.1 h
  refine ⟨rfl, ?_⟩
  rcases found_guardStep hq with ⟨rfl, hf⟩ | ⟨hne, hf⟩
  · exact Or.inl ⟨rfl, hf⟩
  · have hat : g.atRedis = false := by
      cases g <;> first | rfl | exact absurd rfl hne
    exact Or.inr ⟨by simp [hat], hf⟩

theorem sound_inMemory {size : ℤ} {τ : Type*} {call : MemoryStore → Option (MemoryStore × τ)}
    {t : τ} (hW : W.Sound size) (h : W.inMemory r call = some (W', t)) :
    ∃ M, call (W.memory r) = some (M, t) ∧
      (Faithful Prod.fst (generateSegmentBytes size) M → W'.Sound size) := by
  obtain ⟨M, hq, rfl⟩ := inMemory_eq_some.1 h
  refine ⟨M, hq, fun hM => ⟨hW.redis, fun r' => ?_⟩⟩
  rcases eq_or_ne r' r with rfl | hne
  · simpa using hM
  · simpa [hne] using hW.memory r'

section Steps

theorem sound_afterRead {size : ℤ} {id : String} {cached : Option Bytes}
    (h : ∀ v ∈ cached, generateSegmentBytes size id = .ok v) : (afterRead id cached).Sound size := by
  cases cached with
  | none => trivial
  | some v => exact h v rfl

theorem sound_afterFetch {size : ℤ} {id : String} {data : Bytes}
    (h : generateSegmentBytes size id = .ok data) (c : Replica) (bypass : Bool) (e : ℚ) :
    (afterFetch c id bypass data e).Sound size := by
  unfold afterFetch
  split
  · exact h
  · split <;> exact h

/-- One step of `get_segment` keeps the stores and the worker sound. -/
theorem sound_segmentEffect {reply : Reply} {elapsed : ℚ} {t t' : Worker}
    (hW : W.Sound D.segmentSizeBytes) (ht : t.Sound D.segmentSizeBytes)
    (h : SegmentEffect D r now reply elapsed W t W' t') :
    W'.Sound D.segmentSizeBytes ∧ t'.Sound D.segmentSizeBytes := by
  cases h with
  | lookup | lookupMemory => exact ⟨hW, fun v hv => by cases hv⟩
  | read id span g g' _ hq =>
    obtain ⟨hmem, ⟨hred, hf⟩ | ⟨hred, hf⟩⟩ := guard_cases hq
    · refine ⟨⟨hred ▸ faithful_clientGet hW.redis reply, hmem ▸ hW.memory⟩, fun v hv => ?_⟩
      exact eq_of_clientGet hW.redis (hf.symm.trans hv)
    · exact ⟨⟨hred ▸ hW.redis, hmem ▸ hW.memory⟩, fun v hv => ht v (hf _ hv)⟩
  | readDone id span o =>
    exact ⟨hW, sound_afterRead fun v hv => ht v (Option.join_eq_some_iff.1 hv)⟩
  | readMemory id span m m' _ hq =>
    obtain ⟨M, hM, hsound⟩ := sound_inMemory hW hq
    obtain ⟨hfaith, hfound⟩ := faithful_memGetStep (hW.memory r) ht hM
    exact ⟨hsound hfaith, hfound⟩
  | readMemoryDone => exact ⟨hW, sound_afterRead ht⟩
  | fetchRaised => exact ⟨hW, trivial⟩
  | fetched id bypass data hfetch =>
    exact ⟨hW, sound_afterFetch (originFetch_eq_ok.1 hfetch).2 _ _ _⟩
  | write id data e g g' _ hq =>
    obtain ⟨hmem, ⟨hred, -⟩ | ⟨hred, -⟩⟩ := guard_cases hq
    · exact ⟨⟨hred ▸ faithful_clientSet hW.redis ht reply, hmem ▸ hW.memory⟩, ht⟩
    · exact ⟨⟨hred ▸ hW.redis, hmem ▸ hW.memory⟩, ht⟩
  | writeMemory id data e m m' _ hq =>
    obtain ⟨M, hM, hsound⟩ := sound_inMemory hW hq
    exact ⟨hsound (faithful_memSetStep (hW.memory r) ht hM), ht⟩
  | writeDone => exact ⟨hW, ht⟩
  | writeMemoryDone id data e written =>
    cases written with
    | ok => exact ⟨hW, ht⟩
    | error => exact ⟨hW, trivial⟩

end Steps

/-! ## Every call returns -/

section Progress

theorem exists_guard {ν : Type*} (W : World ρ) (c : Replica) (r : ρ) (now : ℚ)
    (call : RedisStore → RedisStore × Option ν) {g : Guard ν} (hg : 0 < g.rank) :
    ∃ W' g', W.guard c r now call g = some (W', g') ∧ g'.rank < g.rank := by
  obtain ⟨p, g', hq, hlt⟩ := exists_guardStep c.guard now
    (if g.atRedis then (call W.redis).2 else none) (W.proc r) hg
  exact ⟨_, g', guard_eq_some.2 ⟨p, hq, rfl⟩, hlt⟩

theorem exists_inMemory {τ : Type*} (W : World ρ) (r : ρ)
    (call : MemoryStore → Option (MemoryStore × τ)) {M : MemoryStore} {t : τ}
    (h : call (W.memory r) = some (M, t)) : ∃ W', W.inMemory r call = some (W', t) :=
  ⟨_, inMemory_eq_some.2 ⟨M, h, rfl⟩⟩

theorem rank_afterRead (id : String) (cached : Option Bytes) : (afterRead id cached).rank < 9 := by
  cases cached <;> simp [afterRead, Worker.rank]

theorem rank_afterFetch (c : Replica) (id : String) (bypass : Bool) (data : Bytes) (e : ℚ) :
    (afterFetch c id bypass data e).rank < 8 := by
  unfold afterFetch
  split
  · simp [Worker.rank]
  · split <;> simp [Worker.rank, Guard.rank, MemSet.rank]

/-- A worker in `get_segment` can always go on, whatever Redis does, and comes closer to its
end. -/
theorem exists_segmentEffect (D : Deployment ω ρ) (r : ρ) (now : ℚ) (reply : Reply) (elapsed : ℚ)
    (W : World ρ) {t : Worker} (ht : 0 < t.rank) :
    ∃ W' t', SegmentEffect D r now reply elapsed W t W' t' ∧ t'.rank < t.rank := by
  cases t with
  | resting => cases ht
  | lookup id =>
    cases hb : (D.config r).backend with
    | redis => exact ⟨_, _, .lookup id hb, by simp [Worker.rank, Guard.rank]⟩
    | memory => exact ⟨_, _, .lookupMemory id hb, by simp [Worker.rank, MemGet.rank]⟩
  | reading id span g =>
    rcases g.rank_pos_or_done with hg | ⟨o, rfl⟩
    · obtain ⟨W', g', hq, hlt⟩ :=
        exists_guard W (D.config r) r now (clientGet (key id) reply) hg
      exact ⟨W', _, .read id span g g' W' hq, Nat.add_lt_add_left hlt 9⟩
    · exact ⟨_, _, .readDone id span o, rank_afterRead _ _⟩
  | readingMemory id span m =>
    rcases m.rank_pos_or_done with hm | ⟨cached, rfl⟩
    · obtain ⟨M, m', hq, hlt⟩ := exists_memGetStep (key id) now (W.memory r) hm
      obtain ⟨W', hW'⟩ := exists_inMemory W r (fun M => memGetStep (key id) now M m) hq
      exact ⟨W', _, .readMemory id span m m' W' hW', Nat.add_lt_add_left hlt 9⟩
    · exact ⟨_, _, .readMemoryDone id span cached, rank_afterRead _ _⟩
  | origin id bypass =>
    cases he : D.fetch r id with
    | error e => exact ⟨_, _, .fetchRaised id bypass e he, by simp [Worker.rank]⟩
    | ok data => exact ⟨_, _, .fetched id bypass data he, rank_afterFetch _ _ _ _ _⟩
  | writing id data e g =>
    rcases g.rank_pos_or_done with hg | ⟨o, rfl⟩
    · obtain ⟨W', g', hq, hlt⟩ :=
        exists_guard W (D.config r) r now (clientSet (key id) data reply) hg
      exact ⟨W', _, .write id data e g g' W' hq, Nat.add_lt_add_left hlt 1⟩
    · exact ⟨_, _, .writeDone id data e o, by simp [Worker.rank]⟩
  | writingMemory id data e m =>
    rcases m.rank_pos_or_done with hm | ⟨written, rfl⟩
    · obtain ⟨M, m', hq, hlt⟩ :=
        exists_memSetStep (key id) data (D.config r).segmentTtlSeconds now (W.memory r) hm
      obtain ⟨W', hW'⟩ := exists_inMemory W r
        (fun M => memSetStep (key id) data (D.config r).segmentTtlSeconds now M m) hq
      exact ⟨W', _, .writeMemory id data e m m' W' hW', Nat.add_lt_add_left hlt 1⟩
    · exact ⟨_, _, .writeMemoryDone id data e written, by simp [Worker.rank]⟩

end Progress

/-! ## What a call raises -/

/-- The entries of the replica are to be kept in memory, for longer than a float can say. -/
def Replica.WriteRaises (c : Replica) : Prop :=
  c.backend = .memory ∧ ¬ PyFloat.Fits c.segmentTtlSeconds

instance (c : Replica) : Decidable c.WriteRaises :=
  inferInstanceAs (Decidable (c.backend = .memory ∧ ¬ PyFloat.Fits c.segmentTtlSeconds))

/-- What `get_segment(id)` can raise on replica `r`: what the origin's sleep raises, and
`OverflowError` when there are too many bytes, or the write raises. -/
def Deployment.Raises (D : Deployment ω ρ) (r : ρ) (id : String) (e : PyError) : Prop :=
  PyFloat.timeSleep D.sleepLimit (D.config r).originLatencySeconds = .error e ∨
    e = .overflowError ∧ (¬ SizeFits D.segmentSizeBytes id ∨ (D.config r).WriteRaises)

instance (D : Deployment ω ρ) (r : ρ) (id : String) : DecidablePred (D.Raises r id) := fun e =>
  inferInstanceAs (Decidable (_ = _ ∨ e = .overflowError ∧ (¬ SizeFits _ _ ∨ Replica.WriteRaises _)))

omit [DecidableEq ρ] in
/-- **What a call can raise.** -/
theorem raises_of_outcome {id : String} {bypass : Bool} {cached : Option Bytes} {elapsed : ℚ}
    {e : PyError} (h : D.outcome r id bypass cached elapsed = .error e) : D.Raises r id e := by
  obtain ⟨-, hfetch | ⟨-, -, hwrite⟩⟩ := segmentOutcome_eq_error.1 h
  · rcases originFetch_eq_error.1 hfetch with hsleep | ⟨-, he, hsize⟩
    · exact Or.inl hsleep
    · exact Or.inr ⟨he, Or.inl hsize⟩
  · obtain ⟨hb, he, hfits⟩ := writeOutcome_eq_error.1 hwrite
    exact Or.inr ⟨he, Or.inr ⟨hb, hfits⟩⟩

/-! ## The runs -/

theorem sound_fleetStep {w : ω} {t t' : Worker} {a : FleetAct}
    (hW : W.Sound D.segmentSizeBytes) (ht : t.Sound D.segmentSizeBytes)
    (h : fleetStep D w W t a = some (W', t')) :
    W'.Sound D.segmentSizeBytes ∧ t'.Sound D.segmentSizeBytes := by
  obtain ⟨-, W₁, rfl, heff⟩ := fleetStep_effect h
  cases heff with
  | call last id bypass => exact ⟨hW.tick, by cases bypass <;> trivial⟩
  | flush last reply => exact ⟨(hW.flush _ _).tick, trivial⟩
  | go reply elapsed heff =>
    obtain ⟨hW₁, ht₁⟩ := sound_segmentEffect hW ht heff
    exact ⟨hW₁.tick, ht₁⟩

variable [DecidableEq ω]

/-- The stores and all workers are sound in every run. -/
theorem sound_run {t₀ : ρ → ℚ} {s : Fleet ω ρ}
    (h : Reachable (Pool.step (fleetStep D)) (launch D t₀) s) :
    s.shared.Sound D.segmentSizeBytes ∧ ∀ w, (s.thread w).Sound D.segmentSizeBytes := by
  have hstable : Pool.Stable (fleetStep D) (fun _ _ _ => True)
      (World.Sound D.segmentSizeBytes) fun _ _ t => t.Sound D.segmentSizeBytes :=
    ⟨fun _ hW ht he => sound_fleetStep hW ht he, fun _ _ _ _ _ hu _ => hu⟩
  have hstart : Pool.Holds (World.Sound D.segmentSizeBytes)
      (fun (_ : ω) _ (t : Worker) => t.Sound D.segmentSizeBytes) (launch D t₀) :=
    ⟨⟨faithful_empty _ _, fun _ => faithful_empty _ _⟩, fun _ => trivial⟩
  exact hstable.reachable hstart h

end EdgeCache.Cache
