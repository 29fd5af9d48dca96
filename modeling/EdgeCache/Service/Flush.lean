import EdgeCache.Cache.Absent
import EdgeCache.Service.ChaosAdmin

/-!
# What a reported flush guarantees

`set_chaos` reports `flushed_cache` when it has called `Cache.flush`, which discards the exceptions
of the Redis client. So a flush that Redis has not made is reported all the same, and its segments
are hit afterwards. A reported flush is a real one exactly when the client call took effect, or
there was none to make, or there was nothing to flush (`flushed_iff`): then the backend is empty,
and every `get_segment` that begins later misses, if no one writes its segment before it has looked
it up.
-/

namespace EdgeCache.Service

open Cache Transition

/-- The response reports a flush. -/
def ReportsFlush (response : Except PyError AdminResponse) : Prop :=
  ∃ state actions, response = .ok (.json state actions) ∧ "flushed_cache" ∈ actions

/-- The request asks for a flush that the response can report. -/
def AsksFlush (var : Option String) (body : ChaosUpdate) (m : ChaosModule) : Prop :=
  chaosEnabled var = true ∧ body.reset ≠ some true ∧ body.flushCache = some true ∧
    nextLatency body m ≠ .posInf

variable {ω ρ : Type*} [DecidableEq ω] [DecidableEq ρ]

/-- The backend of replica `r` holds no segment; and whatever the workers are at, every
`get_segment` that begins on the replica is a miss, if no one writes its segment before the call has
looked it up. The call itself writes it after that. -/
structure Flushed (D : Deployment ω ρ) (r : ρ) (W : World ρ) : Prop where
  absent : ∀ id, W.Absent (D.config r) r id
  misses : ∀ (th : ω → Worker) (w : ω) (id : String) (now : ℚ) (pre mid post : List (ω × FleetAct))
    (s₁ s₂ s' : Fleet ω ρ) (out : SegmentResult), D.replica w = r →
    Along (Pool.step (fleetStep D)) (NoWrite D r id) ⟨W, th⟩
      (pre ++ (w, ⟨now, .getSegment id false⟩) :: mid) →
    run (Pool.step (fleetStep D)) ⟨W, th⟩ pre = some s₁ →
    run (Pool.step (fleetStep D)) s₁ ((w, ⟨now, .getSegment id false⟩) :: mid) = some s₂ →
    (s₂.thread w).HasLookedUp →
    (∀ e ∈ post, e.1 = w → ∃ reply elapsed, e.2.input = .go reply elapsed) →
    run (Pool.step (fleetStep D)) s₂ post = some s' →
    s'.thread w = .resting (some (id, .ok out)) → out.cacheHit = false

theorem Flushed.of_absent {D : Deployment ω ρ} {r : ρ} {W : World ρ}
    (h : ∀ id, W.Absent (D.config r) r id) : Flushed D r W where
  absent := h
  misses := fun th w id now pre mid post s₁ s₂ s' out hw hC hpre hmid hlooked hgo hpost hout => by
    subst hw
    exact misses_of_absent (h id) hC hpre hmid hlooked hgo hpost hout

variable {var : Option String} {c : Replica} {r : ρ} {reply : Reply} {body : ChaosUpdate}
  {s : Site ρ}

omit [DecidableEq ω] in
theorem reportsFlush_iff :
    ReportsFlush (setChaos var c r reply body s).2 ↔ AsksFlush var body s.chaos := by
  rcases h : setChaos var c r reply body s with ⟨s', response⟩
  have heff := h ▸ setChaos_effect var c r reply body s
  cases heff with
  | disabled henabled => simp [ReportsFlush, AsksFlush, henabled]
  | reset henabled hreset => simp [ReportsFlush, AsksFlush, hreset]
  | succeeded henabled hreset hfin =>
    simp [ReportsFlush, AsksFlush, henabled, hreset, hfin, updateActions]
  | failed henabled hreset hinf => simp [ReportsFlush, AsksFlush, hinf]

omit [DecidableEq ω] in
/-- The stores after a request that asks for a flush. -/
theorem world_of_asksFlush (h : AsksFlush var body s.chaos) :
    (setChaos var c r reply body s).1.world = s.world.flush c r reply := by
  obtain ⟨henabled, hreset, hflush, -⟩ := h
  simp [setChaos, henabled, hreset, hflush]

omit [DecidableEq ω] in
/-- Which segments a flush leaves. -/
theorem absent_flush_iff {W : World ρ} {id : String} :
    (W.flush c r reply).Absent c r id ↔
      c.backend = .memory ∨ reply ≠ .raises false ∨ W.redis (key id) = none := by
  unfold World.Absent World.flush
  cases c.backend with
  | memory => simp [memFlushdb]
  | redis => rcases reply with ⟨_ | _⟩ | kept <;> simp [clientFlushdb]

/-- **When a reported flush really happened**: for every request, in every state of the stores and
whatever Redis does, a request that reports a flush leaves the backend without segments, and
`get_segment` without hits on them, exactly when it asks for none, or the cache is in memory, or the
client call took effect, or Redis held no segment. -/
theorem flushed_iff (D : Deployment ω ρ) (var : Option String) (r : ρ) (reply : Reply)
    (body : ChaosUpdate) (s : Site ρ) :
    (ReportsFlush (setChaos var (D.config r) r reply body s).2 →
        Flushed D r (setChaos var (D.config r) r reply body s).1.world) ↔
      ¬ AsksFlush var body s.chaos ∨ (D.config r).backend = .memory ∨ reply ≠ .raises false ∨
        ∀ id, s.world.redis (key id) = none := by
  rw [reportsFlush_iff]
  by_cases hasks : AsksFlush var body s.chaos
  · simp only [hasks, true_implies, not_true, false_or, world_of_asksFlush hasks]
    have habsent : (∀ id, (s.world.flush (D.config r) r reply).Absent (D.config r) r id) ↔
        (D.config r).backend = .memory ∨ reply ≠ .raises false ∨
          ∀ id, s.world.redis (key id) = none := by
      simp only [absent_flush_iff, forall_or_left]
    rw [← habsent]
    exact ⟨Flushed.absent, Flushed.of_absent⟩
  · simp [hasks]

/-- One strict replica. -/
def strictReplica : Deployment ℕ ℕ where
  replica := fun _ => 0
  config := fun _ => ⟨.redis, ⟨true, Breaker.Settings.init 3 (.fin 5)⟩, 60, .fin (3 / 20)⟩
  segmentSizeBytes := 4
  sleepLimit := 1000

/-- A `get_segment` on it, during which Redis answers. -/
def served (id : String) (t : ℚ) (steps : ℕ) : List (ℕ × FleetAct) :=
  [(0, ⟨t, .getSegment id false⟩)] ++ List.replicate steps (0, ⟨t, .go (.answers true) (3 / 20)⟩)

/-- The stores of the replica, the chaos state being that of a new process. -/
def siteOf (W : World ℕ) : Site ℕ := ⟨ChaosModule.init, W⟩

/-- A request for a flush whose client call does as `reply` says. -/
def flushRequest (reply : Reply) (W : World ℕ) : Site ℕ × Except PyError AdminResponse :=
  setChaos (some "true") (strictReplica.config 0) 0 reply { flushCache := some true } (siteOf W)

/-- A segment has been cached. A request for a flush, whose client call raises without effect, is
answered with `flushed_cache`; the segment is still there, and the next `get_segment` is a hit. -/
theorem reported_flush_keeps_segment : ∃ s : Fleet ℕ ℕ,
    run (Pool.step (fleetStep strictReplica)) (launch strictReplica fun _ => 0)
        (served "a" 0 14) = some s ∧
      ReportsFlush (flushRequest (.raises false) s.shared).2 ∧
      ¬ Flushed strictReplica 0 (flushRequest (.raises false) s.shared).1.world ∧
      ∃ s' out, run (Pool.step (fleetStep strictReplica))
          ⟨(flushRequest (.raises false) s.shared).1.world, s.thread⟩ (served "a" 1 7) = some s' ∧
        s'.thread 0 = .resting (some ("a", .ok out)) ∧ out.cacheHit = true := by
  obtain ⟨s, hs, hobs⟩ := Option.map_eq_some_iff.1 (show
    (run (Pool.step (fleetStep strictReplica)) (launch strictReplica fun _ => 0)
      (served "a" 0 14)).map (fun s => (s.thread 0, s.shared.redis (key "a"),
        (run (Pool.step (fleetStep strictReplica))
          ⟨(flushRequest (.raises false) s.shared).1.world, s.thread⟩ (served "a" 1 7)).map
          fun s' => s'.thread 0)) =
      some (.resting (some ("a", .ok ⟨[0x61, 0x61, 0x61, 0x61], false, 3 / 20⟩)),
        some [0x61, 0x61, 0x61, 0x61],
        some (.resting (some ("a", .ok ⟨[0x61, 0x61, 0x61, 0x61], true, 0⟩)))) by decide +kernel)
  obtain ⟨-, hobs⟩ := Prod.mk.inj hobs
  obtain ⟨hredis, hnext⟩ := Prod.mk.inj hobs
  obtain ⟨s', hs', hhit⟩ := Option.map_eq_some_iff.1 hnext
  have hasks : AsksFlush (some "true") { flushCache := some true } (siteOf s.shared).chaos :=
    ⟨by decide +kernel, nofun, rfl,
      show nextLatency { flushCache := some true } ChaosModule.init ≠ .posInf by decide +kernel⟩
  refine ⟨s, hs, reportsFlush_iff.2 hasks, fun hflushed => ?_, s', _, hs', hhit, rfl⟩
  have habsent := hflushed.absent "a"
  rw [flushRequest, world_of_asksFlush hasks] at habsent
  simp [World.Absent, World.flush, strictReplica, clientFlushdb, siteOf, hredis] at habsent

end EdgeCache.Service
