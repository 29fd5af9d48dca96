import EdgeCache.Cache.Fleet
import EdgeCache.Service.ChaosUpdates

/-!
# The chaos endpoint

`set_chaos` and `read_chaos` of `app/main.py`, for requests that are handled one at a time. The
handler updates and publishes the chaos state, flushes the cache if it is asked to, and only then
renders the response; and the renderer raises when it is given a number that is not finite. `clamp`
leaves no such error rate, but it leaves an infinite latency. So a request that ends with one fails
after it has changed the state (`setChaos_atomic_iff`), and as long as the latency is infinite so
does every later one that neither replaces the latency nor resets (`setChaos_of_infinite`).
-/

namespace EdgeCache.Service

open Cache PartialUpdate

/-- `chaos_enabled`, for the value of `CHAOS_ENABLED` if it is set. -/
def chaosEnabled (var : Option String) : Bool :=
  (var.getD "false").toLower ∈ ["1", "true", "yes"]

/-- The body of a request. -/
structure ChaosUpdate where
  latencySeconds : Option PyFloat := none
  errorRate : Option PyFloat := none
  cacheBypass : Option Bool := none
  flushCache : Option Bool := none
  reset : Option Bool := none
  deriving DecidableEq, Repr

/-- The arguments for `chaos.update`. -/
def ChaosUpdate.args (body : ChaosUpdate) : ChaosArgs where
  latencySeconds := body.latencySeconds
  errorRate := body.errorRate
  cacheBypass := body.cacheBypass

/-- What the endpoint answers, unless an exception escapes it. -/
inductive AdminResponse
  /-- The `HTTPException` of `_require_chaos`. -/
  | notFound
  | json (state : ChaosState) (actions : List String)
  deriving DecidableEq, Repr

/-- `JSONResponse` of the state, which refuses numbers that are not finite. -/
def jsonResponse (state : ChaosState) (actions : List String) : Except PyError AdminResponse :=
  if state.latencySeconds.isFinite && state.errorRate.isFinite then .ok (.json state actions)
  else .error .valueError

/-- The chaos module of a process, and the stores of its cache. -/
@[ext]
structure Site (ρ : Type*) where
  chaos : ChaosModule
  world : World ρ

/-- The status that the client receives: an exception is received as 500. -/
def adminStatus : Except PyError AdminResponse → ℕ
  | .ok (.json _ _) => 200
  | .ok .notFound => 404
  | .error _ => 500

/-- The answer is 2xx. -/
def Succeeded (response : Except PyError AdminResponse) : Prop :=
  200 ≤ adminStatus response ∧ adminStatus response < 300

variable {ρ : Type*} [DecidableEq ρ]

/-- `set_chaos` in the process of replica `r`, whose configuration is `c`. The client call of a
flush, if there is one, goes as `reply` says. -/
def setChaos (var : Option String) (c : Replica) (r : ρ) (reply : Reply) (body : ChaosUpdate)
    (s : Site ρ) : Site ρ × Except PyError AdminResponse :=
  if chaosEnabled var then
    if body.reset = some true then
      let chaos := s.chaos.call .reset
      ({ s with chaos := chaos }, jsonResponse chaos.state ["reset"])
    else
      let chaos := s.chaos.call (.update body.args)
      if body.flushCache = some true then
        (⟨chaos, s.world.flush c r reply⟩, jsonResponse chaos.state ["flushed_cache"])
      else ({ s with chaos := chaos }, jsonResponse chaos.state [])
  else (s, .ok .notFound)

/-- `read_chaos`. -/
def readChaos (var : Option String) (s : Site ρ) : Except PyError AdminResponse :=
  if chaosEnabled var then jsonResponse s.chaos.state [] else .ok .notFound

/-! ## Which requests succeed -/

/-- The latency that an update leaves. -/
def nextLatency (body : ChaosUpdate) (m : ChaosModule) : PyFloat :=
  PyFloat.max (.fin 0) (body.latencySeconds.getD m.state.latencySeconds)

omit [DecidableEq ρ] in
theorem state_call_update (body : ChaosUpdate) (m : ChaosModule) :
    (m.call (.update body.args)).state.latencySeconds = nextLatency body m ∧
      (m.call (.update body.args)).state.errorRate.isFinite = true := by
  refine ⟨Schema.value_call chaosSchema m (update body.args) .latencySeconds, ?_⟩
  have hrate : (m.call (.update body.args)).state.errorRate = PyFloat.min (.fin 1)
      (PyFloat.max (.fin 0) (body.errorRate.getD m.state.errorRate)) :=
    Schema.value_call chaosSchema m (update body.args) .errorRate
  obtain ⟨q, hq, -⟩ := PyFloat.min_one_of_zero_le
    (PyFloat.zero_le_max (body.errorRate.getD m.state.errorRate))
  rw [hrate, hq]
  rfl

/-- The response to an update, by the latency that it leaves. -/
theorem jsonResponse_update (body : ChaosUpdate) (m : ChaosModule) (actions : List String) :
    (nextLatency body m = .posInf ∧
        jsonResponse (m.call (.update body.args)).state actions = .error .valueError) ∨
      (nextLatency body m ≠ .posInf ∧
        jsonResponse (m.call (.update body.args)).state actions =
          .ok (.json (m.call (.update body.args)).state actions)) := by
  obtain ⟨hlatency, hrate⟩ := state_call_update body m
  rcases PyFloat.eq_fin_or_posInf_of_zero_le
    (PyFloat.zero_le_max (body.latencySeconds.getD m.state.latencySeconds)) with ⟨q, -, hq⟩ | hinf
  · have hnext : nextLatency body m = .fin q := hq
    refine Or.inr ⟨by rw [hnext]; exact nofun, ?_⟩
    rw [jsonResponse, hlatency, hnext, hrate]
    rfl
  · have hnext : nextLatency body m = .posInf := hinf
    refine Or.inl ⟨hnext, ?_⟩
    rw [jsonResponse, hlatency, hnext]
    rfl

/-- The process after an update. -/
def updated (c : Replica) (r : ρ) (reply : Reply) (body : ChaosUpdate) (s : Site ρ) : Site ρ where
  chaos := s.chaos.call (.update body.args)
  world := if body.flushCache = some true then s.world.flush c r reply else s.world

/-- The actions that it reports. -/
def updateActions (body : ChaosUpdate) : List String :=
  if body.flushCache = some true then ["flushed_cache"] else []

/-- What a request can do. -/
inductive AdminEffect (var : Option String) (c : Replica) (r : ρ) (reply : Reply)
    (body : ChaosUpdate) (s : Site ρ) : Site ρ × Except PyError AdminResponse → Prop
  | disabled : chaosEnabled var = false → AdminEffect var c r reply body s (s, .ok .notFound)
  | reset : chaosEnabled var = true → body.reset = some true →
      AdminEffect var c r reply body s ({ s with chaos := s.chaos.call .reset },
        .ok (.json (s.chaos.call .reset).state ["reset"]))
  | succeeded : chaosEnabled var = true → body.reset ≠ some true →
      nextLatency body s.chaos ≠ .posInf →
      AdminEffect var c r reply body s (updated c r reply body s,
        .ok (.json (s.chaos.call (.update body.args)).state (updateActions body)))
  | failed : chaosEnabled var = true → body.reset ≠ some true →
      nextLatency body s.chaos = .posInf →
      AdminEffect var c r reply body s (updated c r reply body s, .error .valueError)

variable {var : Option String} {c : Replica} {r : ρ} {reply : Reply} {body : ChaosUpdate}
  {s : Site ρ}

/-- **What a request can do.** -/
theorem setChaos_effect (var : Option String) (c : Replica) (r : ρ) (reply : Reply)
    (body : ChaosUpdate) (s : Site ρ) :
    AdminEffect var c r reply body s (setChaos var c r reply body s) := by
  have hupdate : ∀ (henabled : chaosEnabled var = true) (hreset : body.reset ≠ some true),
      AdminEffect var c r reply body s (updated c r reply body s,
        jsonResponse (s.chaos.call (.update body.args)).state (updateActions body)) := by
    intro henabled hreset
    rcases jsonResponse_update body s.chaos (updateActions body) with ⟨hinf, hj⟩ | ⟨hfin, hj⟩
    · exact hj ▸ .failed henabled hreset hinf
    · exact hj ▸ .succeeded henabled hreset hfin
  unfold setChaos
  split_ifs with henabled hreset hflush
  · exact .reset henabled hreset
  · simpa [updated, updateActions, hflush] using hupdate henabled hreset
  · simpa [updated, updateActions, hflush] using hupdate henabled hreset
  · exact .disabled (by simpa using henabled)

/-! ## Failed requests -/

omit [DecidableEq ρ] in
/-- The flush leaves the stores as they are. -/
def FlushKeeps (c : Replica) (r : ρ) (reply : Reply) (W : World ρ) : Prop :=
  match c.backend with
  | .redis => reply = .raises false ∨ ∀ k, W.redis k = none
  | .memory => ∀ k, W.memory r k = none

theorem flush_eq_iff {W : World ρ} : W.flush c r reply = W ↔ FlushKeeps c r reply W := by
  unfold World.flush FlushKeeps
  cases c.backend with
  | redis =>
    have hworld : { W with redis := clientFlushdb reply W.redis } = W ↔
        clientFlushdb reply W.redis = W.redis :=
      ⟨fun h => congrArg World.redis h, fun h => by rw [h]⟩
    rw [hworld]
    unfold clientFlushdb
    split
    · simp
    · next hne =>
      rw [or_iff_right hne, funext_iff]
      exact forall_congr' fun _ => eq_comm
  | memory =>
    have hworld : { W with memory := Function.update W.memory r (memFlushdb (W.memory r)) } = W ↔
        Function.update W.memory r (memFlushdb (W.memory r)) = W.memory :=
      ⟨fun h => congrArg World.memory h, fun h => by rw [h]⟩
    rw [hworld, Function.update_eq_self_iff, funext_iff]
    exact forall_congr' fun _ => eq_comm

/-- The update gives every attribute the value that it has, and the gauges show it already. -/
def Repeats (body : ChaosUpdate) (m : ChaosModule) : Prop :=
  (∀ f, clampValue f (((update body.args).given f).getD (m.value f)) = m.value f) ∧
    chaosSchema.Shown m

omit [DecidableEq ρ] in
theorem call_update_eq_iff {m : ChaosModule} :
    m.call (.update body.args) = m ↔ Repeats body m := by
  have hvalue : ∀ f, (m.call (.update body.args)).value f =
      clampValue f (((update body.args).given f).getD (m.value f)) :=
    Schema.value_call chaosSchema m (update body.args)
  have hshown := Schema.shown_call chaosSchema m (update body.args)
  constructor
  · intro h
    refine ⟨fun f => by rw [← hvalue f, h], fun f => ?_⟩
    have := hshown f
    rwa [show chaosSchema.call m (update body.args) = m from h] at this
  · rintro ⟨hsame, hm⟩
    have heq : (m.call (.update body.args)).value = m.value :=
      funext fun f => (hvalue f).trans (hsame f)
    refine Memory.ext heq (funext fun f => ?_)
    rw [hm f, ← heq]
    exact hshown f

/-- **Which requests fail without a trace**: a request that does not succeed leaves the process
as it was exactly when it is refused, or a reset, or leaves a finite latency, or asks for nothing
new. -/
theorem setChaos_atomic_iff (var : Option String) (c : Replica) (r : ρ) (reply : Reply)
    (body : ChaosUpdate) (s : Site ρ) :
    (¬ Succeeded (setChaos var c r reply body s).2 → (setChaos var c r reply body s).1 = s) ↔
      chaosEnabled var = false ∨ body.reset = some true ∨
        nextLatency body s.chaos ≠ .posInf ∨
        (Repeats body s.chaos ∧ (body.flushCache = some true → FlushKeeps c r reply s.world)) := by
  have hok : ∀ state actions, Succeeded (.ok (.json state actions)) := fun _ _ => by
    simp [Succeeded, adminStatus]
  have herror : ∀ e, ¬ Succeeded (.error e) := fun _ => by simp [Succeeded, adminStatus]
  rcases h : setChaos var c r reply body s with ⟨s', response⟩
  have heff := h ▸ setChaos_effect var c r reply body s
  cases heff with
  | disabled henabled => simp [henabled]
  | reset henabled hreset => simp [hok, hreset]
  | succeeded henabled hreset hfin => simp [hok, hfin]
  | failed henabled hreset hinf =>
    have hsite : updated c r reply body s = s ↔ Repeats body s.chaos ∧
        (body.flushCache = some true → FlushKeeps c r reply s.world) := by
      rw [Site.ext_iff, updated, call_update_eq_iff, ← flush_eq_iff]
      split_ifs with hflush <;> simp [hflush]
    simp [herror, henabled, hreset, hinf, hsite]

/-- An infinite latency makes every later request fail that neither replaces it nor resets, and
every request that only reads the state. -/
theorem setChaos_of_infinite (henabled : chaosEnabled var = true)
    (hs : s.chaos.state.latencySeconds = .posInf) :
    readChaos var s = .error .valueError ∧
      (body.latencySeconds = none → body.reset ≠ some true →
        (setChaos var c r reply body s).2 = .error .valueError ∧
          (setChaos var c r reply body s).1.chaos.state.latencySeconds = .posInf) := by
  refine ⟨by simp [readChaos, henabled, jsonResponse, hs, PyFloat.isFinite], fun hnone hreset => ?_⟩
  have hnext : nextLatency body s.chaos = .posInf := by rw [nextLatency, hnone, hs]; rfl
  rcases h : setChaos var c r reply body s with ⟨s', response⟩
  have heff := h ▸ setChaos_effect var c r reply body s
  cases heff with
  | disabled hdisabled => simp [henabled] at hdisabled
  | reset _ hreset' => exact absurd hreset' hreset
  | succeeded _ _ hfin => exact absurd hnext hfin
  | failed => exact ⟨rfl, (state_call_update body s.chaos).1.trans hnext⟩

/-- A replica in memory mode. -/
def memoryReplica : Replica :=
  ⟨.memory, ⟨true, Breaker.Settings.init 3 (.fin 5)⟩, 60, .fin (3 / 20)⟩

/-- Its process before any request. -/
def freshSite : Site ℕ where
  chaos := ChaosModule.init
  world := ⟨fun _ => none, fun _ => procInit .memory 0, fun _ _ => none⟩

/-- A request for an infinite latency, from the chaos state of a new process. -/
def infiniteLatency : Site ℕ × Except PyError AdminResponse :=
  setChaos (some "true") memoryReplica 0 (.answers true) { latencySeconds := some .posInf } freshSite

/-- It is answered with 500, and has set and published the latency. -/
theorem infiniteLatency_not_atomic :
    adminStatus infiniteLatency.2 = 500 ∧
      infiniteLatency.1.chaos.state.latencySeconds = .posInf ∧
      infiniteLatency.1.chaos.gauge .latencySeconds = .posInf ∧
      ¬ (¬ Succeeded infiniteLatency.2 → infiniteLatency.1 = freshSite) := by
  have hstatus : adminStatus infiniteLatency.2 = 500 := by decide +kernel
  have hlatency : infiniteLatency.1.chaos.state.latencySeconds = .posInf := by decide +kernel
  refine ⟨hstatus, hlatency, by decide +kernel, fun hatomic => ?_⟩
  have hsame := hatomic (by simp [Succeeded, hstatus])
  rw [hsame] at hlatency
  cases hlatency

end EdgeCache.Service
