import EdgeCache.Cache.Startup
import EdgeCache.Service.Answers

/-!
# The mode of a replica

From the environment of a replica to what it answers. `EdgeCache.Cache.Startup` says which mode the
constructor chooses; this module, that the service keeps to it in every run. A strict replica never
serves from an in-memory store, and its health names Redis; a replica in memory mode never reports
anything about Redis but that it is not up (`mode_kept`).
-/

namespace EdgeCache.Service

open Cache Transition

variable {ω ρ : Type*} [DecidableEq ρ] {D : Rollout ω ρ} {w : ω} {M M' : Shared ρ} {h h' : Handling}

/-- The status that a request for the health has read, or was answered. -/
def Handling.health : Handling → Option CacheStatus
  | .observe (.health status) => some status
  | .observeAgain (.health status) _ => some status
  | .countRequest (.health status) => some status
  | .idle (some (.healthz status)) => some status
  | _ => none

/-- The status is one that a replica with configuration `c` reports. -/
def StatusOf (c : Replica) (status : CacheStatus) : Prop := ∃ p, status = cacheStatus c p

theorem statusOf_memory {c : Replica} {status : CacheStatus} (h : StatusOf c status)
    (hc : c.backend = .memory) : status = ⟨.memory, false⟩ := by
  obtain ⟨p, rfl⟩ := h
  simp only [cacheStatus, hc]

theorem backend_of_statusOf {c : Replica} {status : CacheStatus} (h : StatusOf c status) :
    status.backend = c.backend := by
  obtain ⟨p, rfl⟩ := h
  unfold cacheStatus
  split <;> next hc => exact hc.symm

theorem health_serverStep {a : ServerAct}
    (hh : ∀ status ∈ h.health, StatusOf (D.config (D.replica w)) status)
    (hstep : serverStep D w M h a = some (M', h')) :
    ∀ status ∈ h'.health, StatusOf (D.config (D.replica w)) status := by
  rcases serverStep_cases hstep with ⟨last, request, rfl, rfl, rfl, rfl⟩ | ⟨env, rfl, heff⟩
  · cases request <;> rintro _ ⟨⟩
  cases heff with
  | healthz =>
    intro status hstatus
    exact ⟨_, (Option.some.inj hstatus).symm⟩
  | chaosRead id read =>
    cases read with
    | latencyTest | rateTest | bypass => rintro _ ⟨⟩
    | latencySleep | rateDraw =>
      simp only [afterChaosRead]
      split <;> rintro _ ⟨⟩
  | returned id id' result =>
    simp only [afterLookup]
    split <;> rintro _ ⟨⟩
  | observe o | observeExemplar o | refused o | refusedLate o | observeAgain o | countRequest o =>
    cases o with
    | health status => exact hh
    | fault | found => rintro _ ⟨⟩
  | inflightInc | call | cache | raised | originFetch | finish | notFound | unprocessable |
    readChaos | beginUpdate | update | updated | copy | answer | flush => rintro _ ⟨⟩

variable [DecidableEq ω]

/-- What requests for the health are answered. -/
theorem statusOf_run {t : ρ → ℚ} {s : Server ω ρ}
    (h : Reachable (Pool.step (serverStep D)) (boot D t) s) {w : ω} {status : CacheStatus}
    (hw : s.thread w = .idle (some (.healthz status))) : StatusOf (D.config (D.replica w)) status := by
  have hstable : Pool.Stable (serverStep D) (fun _ _ _ => True) (fun _ => True)
      fun w _ (h : Handling) => ∀ status ∈ h.health, StatusOf (D.config (D.replica w)) status :=
    ⟨fun _ _ hh he => ⟨trivial, health_serverStep hh he⟩, fun _ _ _ _ _ hu _ => hu⟩
  have hrun := (hstable.reachable ⟨trivial, fun _ _ hnone => by cases hnone⟩ h).2 w
  rw [hw] at hrun
  exact hrun status rfl

/-- **A replica stays in the mode that its environment gives it.** In every run of the service, of a
replica that `Cache.__init__` has started: if it is strict, its in-memory store is empty and its
health names Redis; and if it is in memory mode, its process is as it was at first, and its health
says so. -/
theorem mode_kept {u : ρ → Startup} {t : ρ → ℚ} (hD : ∀ r, D.config r = ((u r).init (t r)).1)
    {s : Server ω ρ} (h : Reachable (Pool.step (serverStep D)) (boot D t) s) (r : ρ) :
    (boot D t).shared.world.proc r = ((u r).init (t r)).2 ∧
      (((u r).init (t r)).1.backend = .memory ↔
        (u r).redisInstalled = false ∨ ((u r).allowsFallback = true ∧ (u r).ping = false)) ∧
      (((u r).init (t r)).1.backend = .redis →
        s.shared.world.memory r = (fun _ => none) ∧ ∀ w status, D.replica w = r →
          s.thread w = .idle (some (.healthz status)) → status.backend = .redis) ∧
      (((u r).init (t r)).1.backend = .memory →
        (∃ now, s.shared.world.proc r = { ((u r).init (t r)).2 with clock := now }) ∧
          ∀ w status, D.replica w = r → s.thread w = .idle (some (.healthz status)) →
            status = ⟨.memory, false⟩) := by
  obtain ⟨q, hq, hM, -⟩ := refines_fleet h
  have hmode := inMode_run hq
  have hproc : ((u r).init (t r)).2 = procInit ((u r).init (t r)).1.backend (t r) :=
    congrArg Prod.snd ((u r).init_eq (t r))
  refine ⟨?_, (u r).backend_init (t r), fun hredis => ⟨?_, ?_⟩, fun hmemory => ⟨?_, ?_⟩⟩
  · rw [hproc, ← hD r]
    rfl
  · rw [← hM.world]
    exact hmode.strict r ((congrArg Replica.backend (hD r)).trans hredis)
  · rintro w status rfl hw
    rw [backend_of_statusOf (statusOf_run h hw), hD, hredis]
  · obtain ⟨now, hnow⟩ := hmode.memory r ((congrArg Replica.backend (hD r)).trans hmemory)
    refine ⟨now, ?_⟩
    rw [← hM.world, hnow, hproc, hmemory]
    rfl
  · rintro w status rfl hw
    exact statusOf_memory (statusOf_run h hw) ((congrArg Replica.backend (hD _)).trans hmemory)

/-- Redis does not answer its ping. -/
def unanswered : Startup where
  redisInstalled := true
  allowFallback := none
  cacheMemoryFallback := none
  redisCbEnabled := none
  cbFailThreshold := 3
  cbCooldownSeconds := .fin 5
  segmentTtlSeconds := 60
  originLatencySeconds := .fin (3 / 20)
  pong := none

/-- Only the second of two replicas is allowed to fall back. -/
def fallbacks (r : Bool) : Startup :=
  { unanswered with cacheMemoryFallback := if r then some "true" else none }

/-- These two replicas, with one thread each. -/
def mixed : Rollout Bool Bool := { lab with config := fun r => ((fallbacks r).init 0).1 }

/-- Both are asked for their health. -/
theorem asked_mixed : (run (Pool.step (serverStep mixed)) (boot mixed fun _ => 0)
    (handle false .healthz 3 ++ handle true .healthz 3)).map (fun s =>
      ((s.thread false).answer, (s.thread true).answer)) =
    some (some (.healthz ⟨.redis, true⟩), some (.healthz ⟨.memory, false⟩)) := by
  decide +kernel

/-- The first one is strict, and the second one is not. -/
theorem mode_kept_mixed : ∃ s, Reachable (Pool.step (serverStep mixed)) (boot mixed fun _ => 0) s ∧
    s.shared.world.memory false = (fun _ => none) ∧ (s.shared.world.proc true).redisUp = 0 ∧
      s.thread true = .idle (some (.healthz ⟨.memory, false⟩)) := by
  obtain ⟨s, hs, hobs⟩ := Option.map_eq_some_iff.1 asked_mixed
  have hw := Handling.answer_eq_some.1 (congrArg Prod.snd hobs)
  have hreach : Reachable (Pool.step (serverStep mixed)) (boot mixed fun _ => 0) s := ⟨_, hs⟩
  have hD : ∀ r, mixed.config r = ((fallbacks r).init 0).1 := fun _ => rfl
  obtain ⟨-, -, hstrict, -⟩ := mode_kept hD hreach false
  obtain ⟨-, -, -, hmemory⟩ := mode_kept hD hreach true
  obtain ⟨hempty, -⟩ := hstrict (by decide +kernel)
  obtain ⟨⟨now, hproc⟩, -⟩ := hmemory (by decide +kernel)
  have hzero : ((fallbacks true).init 0).2.redisUp = 0 := by decide +kernel
  exact ⟨s, hreach, hempty, hproc ▸ hzero, hw⟩

end EdgeCache.Service
