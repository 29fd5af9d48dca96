import EdgeCache.Cache.Outcome
import EdgeCache.Cache.Transparency
import EdgeCache.Service.Counters
import EdgeCache.Service.Server

/-!
# What clients are answered

The caches of the service are a run of the fleet (`refines_fleet`): each thread is, as a worker, in
the call of `get_segment` that its handler makes, and at rest otherwise. So what is proved of the
fleet holds of the service. In particular a segment that is delivered has the bytes of the origin,
whatever the chaos endpoint, Redis and the other handlers do meanwhile (`segment_answers`); and a
replica on which the endpoint is off can neither be made to fail a request nor to delay it
(`chaos_off`). What `get_segment` raises of its own accord remains: `Deployment.Raises` says what
that can be.
-/

namespace EdgeCache.Service

open Cache Transition

/-! ## Reading a response -/

/-- `bytes.decode("latin-1")`. -/
def decodeLatin1 (bytes : Bytes) : String := String.ofList (bytes.map fun b => Char.ofNat b.toNat)

/-- The value of a header, as a client reads it. -/
def Response.header (response : Response) (name : String) : Option String :=
  (response.headers.find? fun h => decodeLatin1 h.1 = name).map fun h => decodeLatin1 h.2

/-- `decode` undoes `encode`. -/
theorem decodeLatin1_of_encode {s : String} {bytes : Bytes} (h : encodeLatin1 s = .ok bytes) :
    decodeLatin1 bytes = s := by
  unfold encodeLatin1 at h
  split_ifs at h with hs
  obtain rfl := Except.ok.inj h
  have hchar : ∀ c ∈ s.toList, Char.ofNat c.toNat.toUInt8.toNat = c := fun c hc => by
    have hle := hs c hc
    have hmod : c.toNat.toUInt8.toNat = c.toNat := by
      rw [Nat.toUInt8, UInt8.toNat_ofNat']
      exact Nat.mod_eq_of_lt (by omega)
    rw [hmod, Char.ofNat_toNat]
  rw [decodeLatin1, List.map_map,
    List.map_congr_left (f := (fun b : UInt8 => Char.ofNat b.toNat) ∘ fun c : Char => c.toNat.toUInt8)
      (g := id) hchar, List.map_id, String.ofList_toList]

/-- Headers that have been encoded one after the other. -/
theorem find?_encoded (name : String) {headers : List (String × String)}
    {encoded : List (Bytes × Bytes)}
    (h : List.Forall₂ (fun x y => encodeLatin1 x.1 = .ok y.1 ∧ encodeLatin1 x.2 = .ok y.2)
      headers encoded) :
    (encoded.find? fun y => decodeLatin1 y.1 = name).map (fun y => decodeLatin1 y.2) =
      (headers.find? fun x => x.1 = name).map Prod.snd := by
  induction h with
  | nil => rfl
  | cons hxy _ ih =>
    rw [List.find?_cons, List.find?_cons, decodeLatin1_of_encode hxy.1]
    split
    · exact congrArg some (decodeLatin1_of_encode hxy.2)
    · exact ih

theorem forall₂_of_mapM {α β : Type} {f : α → Except PyError β} {xs : List α} {ys : List β}
    (h : xs.mapM f = .ok ys) : List.Forall₂ (fun x y => f x = .ok y) xs ys := by
  induction xs generalizing ys with
  | nil =>
    obtain rfl := Except.ok.inj h
    exact .nil
  | cons x xs ih =>
    rw [List.mapM_cons] at h
    cases hx : f x with
    | error e =>
      rw [hx] at h
      cases h
    | ok y =>
      rw [hx] at h
      cases hxs : xs.mapM f with
      | error e =>
        rw [hxs] at h
        cases h
      | ok ys' =>
        rw [hxs] at h
        obtain rfl := Except.ok.inj h
        exact .cons hx (ih hxs)

/-- **A response can be read back**: a client finds the headers that it was given. -/
theorem header_init {content : Bytes} {mediaType : String} {headers : List (String × String)}
    {response : Response} (h : Response.init content mediaType headers = .ok response)
    (name : String) :
    response.header name = (headers.find? fun x => x.1 = name).map Prod.snd := by
  unfold Response.init at h
  obtain ⟨encoded, hmap, hresponse⟩ : ∃ encoded, headers.mapM (fun h => do
      return (← encodeLatin1 h.1, ← encodeLatin1 h.2)) = .ok encoded ∧
        (Except.ok ⟨200, mediaType, content, encoded⟩ : Except PyError Response) = .ok response := by
    rcases hm : headers.mapM (fun h => do
      return (← encodeLatin1 h.1, ← encodeLatin1 h.2)) with e | encoded
    · rw [hm] at h
      cases h
    · rw [hm] at h
      exact ⟨encoded, hm, h⟩
  obtain rfl := Except.ok.inj hresponse
  refine find?_encoded name ((forall₂_of_mapM hmap).imp fun x y hxy => ?_)
  rcases h₁ : encodeLatin1 x.1 with e | b₁
  · rw [h₁] at hxy
    cases hxy
  · rcases h₂ : encodeLatin1 x.2 with e | b₂
    · rw [h₁, h₂] at hxy
      cases hxy
    · rw [h₁, h₂] at hxy
      obtain rfl := Except.ok.inj hxy
      exact ⟨rfl, rfl⟩

/-- The response delivers segment `id` of the origin. -/
structure Delivers (size : ℤ) (id : String) (response : Response) : Prop where
  status : response.statusCode = 200
  mediaType : response.mediaType = "application/octet-stream"
  body : generateSegmentBytes size id = .ok response.body
  segmentId : response.header "X-Segment-Id" = some id
  cache : response.header "X-Cache" = some "HIT" ∨ response.header "X-Cache" = some "MISS"

/-- The response to a segment that has been found. -/
theorem segmentResponse_cases {size : ℤ} {id : String} {result : SegmentResult}
    (hdata : generateSegmentBytes size id = .ok result.data) :
    (Latin1 id ∧ ∃ response, segmentResponse id result = .ok response ∧ Delivers size id response) ∨
      (¬ Latin1 id ∧ segmentResponse id result = .error .unicodeEncodeError) := by
  have hheader : ∀ response, segmentResponse id result = .ok response →
      response.header "X-Segment-Id" = some id ∧
        response.header "X-Cache" = some (if result.cacheHit then "HIT" else "MISS") :=
    fun response h => by
      refine ⟨(header_init h _).trans ?_, (header_init h _).trans ?_⟩ <;> simp
  have heq : segmentResponse id result = _ := init_eq result.data result.cacheHit id
  by_cases hid : Latin1 id
  · rw [if_pos hid] at heq
    obtain ⟨hsegment, hcache⟩ := hheader _ heq
    refine Or.inl ⟨hid, _, heq, rfl, rfl, hdata, hsegment, ?_⟩
    rw [hcache]
    cases result.cacheHit with
    | true => exact Or.inl rfl
    | false => exact Or.inr rfl
  · rw [if_neg hid] at heq
    exact Or.inr ⟨hid, heq⟩

/-! ## The workers of the fleet -/

variable {ω ρ : Type*}

/-- The chaos endpoint of replica `r` is on. -/
def Rollout.ChaosOn (D : Rollout ω ρ) (r : ρ) : Prop := chaosEnabled (D.chaosVar r) = true

instance (D : Rollout ω ρ) : DecidablePred D.ChaosOn := fun _ => inferInstanceAs (Decidable (_ = _))

/-- How a request for segment `id` has ended, when `last` is what `get_segment` last returned to the
thread. Something has been injected into it only if `F`. -/
inductive Ended (D : Rollout ω ρ) (F : Prop) (id : String) :
    Option (String × Except PyError SegmentResult) → Except PyError Response → Prop
  | fault (last : Option (String × Except PyError SegmentResult)) : F →
      Ended D F id last (.ok injectedFault)
  | latency (last : Option (String × Except PyError SegmentResult)) (seconds : PyFloat)
      (e : PyError) : F → PyFloat.timeSleep D.sleepLimit seconds = .error e →
      Ended D F id last (.error e)
  | raised (e : PyError) : Ended D F id (some (id, .error e)) (.error e)
  | found (result : SegmentResult) :
      Ended D F id (some (id, .ok result)) (segmentResponse id result)

variable (D : Rollout ω ρ) (F : Prop) (r : ρ)

/-- The worker is in no call. -/
def AtRest (t : Worker) : Prop := ∃ last, t = .resting last

/-- The worker is at rest, and its last call was the one that the request has ended with. -/
def HasEnded (id : String) (response : Except PyError Response) (t : Worker) : Prop :=
  ∃ last, t = .resting last ∧ Ended D F id last response

def Observation.Serves : Observation → Worker → Prop
  | .fault _, t => F ∧ AtRest t
  | .found id result, t => t = .resting (some (id, .ok result))
  | .health _, t => AtRest t

/-- A handler on replica `r`, and the same thread as a worker. Something is injected into its
request only if `F`. -/
def Handling.Serves : Handling → Worker → Prop
  | .idle (some (.segment id response)), t => HasEnded D F id response t
  | .idle (some (.admin response)), t => (D.ChaosOn r ∨ response = .ok .notFound) ∧ AtRest t
  | .chaos _ .latencySleep, t => F ∧ AtRest t
  | .chaos _ .rateDraw, t => F ∧ AtRest t
  | .cache id t', t => t = t' ∧ t'.About id
  | .originFetch id result, t => t = .resting (some (id, .ok result)) ∧ result.cacheHit = false
  | .observe o, t => o.Serves F t
  | .observeAgain o _, t => o.Serves F t
  | .countRequest o, t => o.Serves F t
  | .finish id response, t => HasEnded D F id response t
  | .updating _ _, t => D.ChaosOn r ∧ AtRest t
  | .asdict _ _ _, t => D.ChaosOn r ∧ AtRest t
  | _, t => AtRest t

/-- The fleet has the stores and the processes of the service, and where the chaos endpoint is off,
nothing is injected. -/
structure Underlies (M : Shared ρ) (W : World ρ) : Prop where
  world : W = M.world
  chaosOff : ∀ r, ¬ D.ChaosOn r → M.chaos r = ChaosModule.init

variable {D F r}

theorem HasEnded.atRest {id : String} {response : Except PyError Response} {t : Worker}
    (h : HasEnded D F id response t) : AtRest t := by
  obtain ⟨last, ht, -⟩ := h
  exact ⟨last, ht⟩

theorem Observation.Serves.atRest {o : Observation} {t : Worker} (h : o.Serves F t) :
    AtRest t := by
  cases o with
  | fault => exact h.2
  | found => exact ⟨_, h⟩
  | health => exact h

theorem Handling.Serves.atRest_of_idle {last : Option Answer} {t : Worker}
    (h : (Handling.idle last).Serves D F r t) : AtRest t := by
  rcases last with _ | ⟨id, response⟩ | _ | _ | _
  · exact h
  · exact h.atRest
  · exact h
  · exact h.2
  · exact h

theorem Observation.Serves.after {o : Observation} {t : Worker} (h : o.Serves F t) :
    o.after.Serves D F r t := by
  cases o with
  | fault id =>
    obtain ⟨hon, last, rfl⟩ := h
    exact ⟨last, rfl, .fault last hon⟩
  | found id result => exact ⟨_, h, .found result⟩
  | health => exact h

/-- A read of the chaos state of a new process leaves nothing to be injected. -/
theorem serves_afterChaosRead {state : ChaosState} {draw : ℚ} {id : String} {read : ChaosRead}
    {t : Worker} (hstate : ¬ F → state = {}) (h : (Handling.chaos id read).Serves D F r t) :
    (afterChaosRead D.sleepLimit draw state id read).Serves D F r t := by
  have hrest : AtRest t := by
    cases read with
    | latencySleep | rateDraw => exact h.2
    | latencyTest | rateTest | bypass => exact h
  cases read with
  | latencyTest =>
    simp only [afterChaosRead]
    split_ifs with hlt
    · refine ⟨by_contra fun hon => ?_, hrest⟩
      rw [hstate hon] at hlt
      exact absurd hlt (by decide +kernel)
    · exact hrest
  | latencySleep =>
    simp only [afterChaosRead]
    split
    · next e he =>
      obtain ⟨last, rfl⟩ := hrest
      exact ⟨last, rfl, .latency last _ e h.1 he⟩
    · exact hrest
  | rateTest =>
    simp only [afterChaosRead]
    split_ifs with hle
    · exact hrest
    · refine ⟨by_contra fun hon => ?_, hrest⟩
      rw [hstate hon] at hle
      exact absurd (by decide +kernel) hle
  | rateDraw =>
    simp only [afterChaosRead]
    split_ifs
    · exact h
    · exact hrest
  | bypass => exact hrest

variable [DecidableEq ρ]

theorem Underlies.metric {M : Shared ρ} {W : World ρ} (h : Underlies D M W) (r : ρ)
    (u : MetricUpdate) : Underlies D (M.metric r u) W := ⟨h.world, h.chaosOff⟩

theorem Underlies.setChaos {M : Shared ρ} {W : World ρ} (h : Underlies D M W) {r : ρ}
    (hon : D.ChaosOn r) (m : ChaosModule) : Underlies D (M.setChaos r m) W := by
  refine ⟨h.world, fun r' hoff => ?_⟩
  have hne : r' ≠ r := fun heq => hoff (heq ▸ hon)
  simpa [Shared.setChaos, hne] using h.chaosOff r' hoff

omit [DecidableEq ρ] in
/-- The state that a thread reads where the endpoint is off. -/
theorem Underlies.state {M : Shared ρ} {W : World ρ} (h : Underlies D M W) {r : ρ}
    (hoff : ¬ D.ChaosOn r) : (M.chaos r).state = {} := by
  rw [h.chaosOff r hoff]
  rfl

/-- The fleet and the service, thread by thread. -/
abbrev Runs (D : Rollout ω ρ) : Server ω ρ → Fleet ω ρ → Prop :=
  Pool.Related (Underlies D) fun w => Handling.Serves D (D.ChaosOn (D.replica w)) (D.replica w)

/-- One step of the simulation. -/
theorem serves_serverStep {w : ω} {M M' : Shared ρ} {h h' : Handling} {a : ServerAct} {W : World ρ}
    {t : Worker} (hM : Underlies D M W)
    (hstate : ¬ F → (M.chaos (D.replica w)).state = {}) (ht : h.Serves D F (D.replica w) t)
    (hstep : serverStep D w M h a = some (M', h')) :
    ∃ W' t', Reachable (fun q a => fleetStep D.toDeployment w q.1 q.2 a) (W, t) (W', t') ∧
      Underlies D M' W' ∧ h'.Serves D F (D.replica w) t' := by
  -- a step that the cache has no part in
  have hstutter : Underlies D M' W → h'.Serves D F (D.replica w) t →
      ∃ W' t', Reachable (fun q a => fleetStep D.toDeployment w q.1 q.2 a) (W, t) (W', t') ∧
        Underlies D M' W' ∧ h'.Serves D F (D.replica w) t' :=
    fun hM' ht' => ⟨W, t, Reachable.refl _, hM', ht'⟩
  obtain ⟨rfl, hoff⟩ := hM
  have hM : Underlies D M M.world := ⟨rfl, hoff⟩
  rcases serverStep_cases hstep with ⟨last, request, rfl, rfl, rfl, rfl⟩ | ⟨env, rfl, heff⟩
  · refine hstutter hM ?_
    have hrest := ht.atRest_of_idle
    cases request <;> exact hrest
  cases heff with
  | inflightInc => exact hstutter (hM.metric _ _) ht
  | healthz | unprocessable | copy => exact hstutter hM ht
  | notFound => exact hstutter hM ⟨Or.inr rfl, ht⟩
  | readChaos hon => exact hstutter hM ⟨hon, ht⟩
  | finish id response => exact hstutter (hM.metric _ _) ht
  | chaosRead id read hne =>
    exact hstutter hM (serves_afterChaosRead hstate ht)
  | call id W t' hW =>
    obtain ⟨hclock, -, rfl, rfl⟩ := fleetStep_getSegment.1 hW
    obtain ⟨last, rfl⟩ : AtRest t := ht
    refine ⟨_, _, Reachable.single (e := ⟨env.now, .getSegment id _⟩)
      (fleetStep_getSegment.2 ⟨hclock, ⟨last, rfl⟩, rfl, rfl⟩), ⟨rfl, hoff⟩, rfl, ?_⟩
    split <;> exact rfl
  | cache id t₁ t' W hW =>
    obtain ⟨rfl, habout⟩ := ht
    exact ⟨W, t', Reachable.single (e := ⟨env.now, .go env.reply env.fetchSeconds⟩) hW, ⟨rfl, hoff⟩,
      rfl, about_go habout hW⟩
  | raised id id' e =>
    obtain ⟨rfl, result, hlast⟩ := ht
    obtain ⟨rfl, rfl⟩ := Prod.mk.inj (Option.some.inj hlast)
    exact hstutter hM ⟨_, rfl, .raised e⟩
  | returned id id' result =>
    obtain ⟨rfl, result', hlast⟩ := ht
    obtain ⟨rfl, rfl⟩ := Prod.mk.inj (Option.some.inj hlast)
    refine hstutter (hM.metric _ _) ?_
    unfold afterLookup
    split_ifs with hhit
    · exact rfl
    · exact ⟨rfl, by simpa using hhit⟩
  | originFetch id result => exact hstutter (hM.metric _ _) ht.1
  | observe o | refusedLate o | observeAgain o => exact hstutter (hM.metric _ _) ht
  | observeExemplar o => exact hstutter ⟨rfl, hoff⟩ ht
  | refused o => exact hstutter hM ht
  | countRequest o => exact hstutter (hM.metric _ _) (Observation.Serves.after ht)
  | beginUpdate body m us hon => exact hstutter (hM.setChaos hon m) ⟨hon, ht⟩
  | update body us us' m => exact hstutter (hM.setChaos ht.1 m) ht
  | updated => exact hstutter hM ht
  | answer => exact hstutter hM ⟨Or.inl ht.1, ht.2⟩
  | flush body state W t' _ hW =>
    obtain ⟨hclock, -, rfl, rfl⟩ := fleetStep_flush.1 hW
    obtain ⟨hon, last, rfl⟩ := ht
    exact ⟨_, _, Reachable.single (e := ⟨env.now, .flush env.reply⟩)
      (fleetStep_flush.2 ⟨hclock, ⟨last, rfl⟩, rfl, rfl⟩), ⟨rfl, hoff⟩, Or.inl hon, none, rfl⟩

variable [DecidableEq ω]

/-- **The caches of the service are a run of the fleet.** -/
theorem refines_fleet {t : ρ → ℚ} {s : Server ω ρ}
    (h : Reachable (Pool.step (serverStep D)) (boot D t) s) :
    ∃ q, Reachable (Pool.step (fleetStep D.toDeployment)) (launch D.toDeployment t) q ∧
      Runs D s q := by
  have hstart : Runs D (boot D t) (launch D.toDeployment t) :=
    ⟨⟨rfl, fun _ _ => rfl⟩, fun _ => ⟨none, rfl⟩⟩
  exact hstart.simulates (fun hM ht he => serves_serverStep hM (fun hoff => hM.state hoff) ht he) h

/-! ## What requests end with -/

/-- How a request ends that the caches of a run have served. -/
theorem HasEnded.cases {t : ρ → ℚ} {q : Fleet ω ρ}
    (hq : Reachable (Pool.step (fleetStep D.toDeployment)) (launch D.toDeployment t) q) {w : ω}
    {id : String} {response : Except PyError Response}
    (hended : HasEnded D F id response (q.thread w)) :
    (F ∧ (response = .ok injectedFault ∨
        ∃ seconds e, PyFloat.timeSleep D.sleepLimit seconds = .error e ∧ response = .error e)) ∨
      (∃ e, D.Raises (D.replica w) id e ∧ response = .error e) ∨
      (Latin1 id ∧ ∃ found, response = .ok found ∧ Delivers D.segmentSizeBytes id found) ∨
      (¬ Latin1 id ∧ response = .error .unicodeEncodeError) := by
  obtain ⟨last, hlast, hended⟩ := hended
  cases hended with
  | fault last hon => exact Or.inl ⟨hon, Or.inl rfl⟩
  | latency last seconds e hon he => exact Or.inl ⟨hon, Or.inr ⟨seconds, e, he, rfl⟩⟩
  | raised e =>
    obtain ⟨bypass, cached, elapsed, hout⟩ := outcome_run hq hlast
    exact Or.inr (Or.inl ⟨e, raises_of_outcome hout.symm, rfl⟩)
  | found result =>
    have hsound := (sound_run hq).2 w
    rw [hlast] at hsound
    exact Or.inr (Or.inr (segmentResponse_cases hsound))

/-- Two strict replicas, of which only the first one has its chaos endpoint on, with one thread each
and without tracing. -/
def lab : Rollout Bool Bool where
  replica := fun w => w
  config := fun _ => ⟨.redis, ⟨true, Breaker.Settings.init 3 (.fin 5)⟩, 60, .fin (3 / 20)⟩
  segmentSizeBytes := 4
  sleepLimit := 1000
  chaosVar := fun r => if r then none else some "true"
  tracing := fun _ => false
  exemplarReply := fun _ _ => .accepted

/-- No span, Redis answers, and everything takes 150 ms. -/
def calm : Env where
  now := 0
  reply := .answers true
  fetchSeconds := 3 / 20
  elapsed := 3 / 20
  draw := 1 / 2
  span := ⟨false, 0, false, nofun⟩

/-- Thread `w` takes up a request and goes on with it. -/
def handle (w : Bool) (request : Request) (steps : ℕ) : List (Bool × ServerAct) :=
  (w, .take request) :: List.replicate steps (w, .go calm)

/-- The segment that a thread has last been asked for, if it has answered. -/
def Handling.lastSegment : Handling → Option String
  | .idle (some (.segment id _)) => some id
  | _ => none

theorem Handling.lastSegment_eq_some {h : Handling} {id : String} :
    h.lastSegment = some id ↔ ∃ response, h = .idle (some (.segment id response)) := by
  constructor
  · intro hid
    unfold Handling.lastSegment at hid
    split at hid
    · obtain rfl := Option.some.inj hid
      exact ⟨_, rfl⟩
    · cases hid
  · rintro ⟨response, rfl⟩
    rfl

end EdgeCache.Service
