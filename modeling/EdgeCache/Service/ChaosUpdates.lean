import EdgeCache.Foundations.PartialUpdateRuns
import EdgeCache.Service.Chaos

/-!
# Updates of the chaos state

`update` and `reset` of `app/chaos.py`, with the `clamp` and `publish_metrics` that they call. The
handlers are synchronous and take no lock, so the calls of several threads interleave at every read
and write of an attribute and at every write of a gauge. That is what
`EdgeCache.Foundations.PartialUpdate` describes, for the three attributes of the state: `chaosStep`
is one step of a thread, and `ChaosModule.call` a call that no other one interrupts.
-/

namespace EdgeCache.Service

open PartialUpdate Transition

/-- The attributes of `ChaosState`. -/
inductive ChaosField
  | latencySeconds
  | errorRate
  | cacheBypass
  deriving DecidableEq, Repr

/-- The values of an attribute. -/
abbrev ChaosField.Value : ChaosField → Type
  | .latencySeconds => PyFloat
  | .errorRate => PyFloat
  | .cacheBypass => Bool

/-- The values of the gauge that shows the attribute. -/
abbrev ChaosField.Gauge : ChaosField → Type
  | .latencySeconds => PyFloat
  | .errorRate => PyFloat
  | .cacheBypass => ℕ

instance : ∀ f : ChaosField, DecidableEq f.Value
  | .latencySeconds => inferInstanceAs (DecidableEq PyFloat)
  | .errorRate => inferInstanceAs (DecidableEq PyFloat)
  | .cacheBypass => inferInstanceAs (DecidableEq Bool)

/-- What `clamp` makes of the value of an attribute. -/
def clampValue : ∀ f : ChaosField, f.Value → f.Value
  | .latencySeconds, x => PyFloat.max (.fin 0) x
  | .errorRate, x => PyFloat.min (.fin 1) (PyFloat.max (.fin 0) x)
  | .cacheBypass, b => b

/-- What `publish_metrics` makes of it. -/
def publishedValue : ∀ f : ChaosField, f.Value → f.Gauge
  | .latencySeconds, x => x
  | .errorRate, x => x
  | .cacheBypass, b => if b then 1 else 0

theorem clampValue_clampValue (f : ChaosField) (x : f.Value) :
    clampValue f (clampValue f x) = clampValue f x := by
  cases f with
  | latencySeconds => exact PyFloat.max_zero_of_le (PyFloat.zero_le_max x)
  | errorRate =>
    obtain ⟨q, hq, h0, h1⟩ := PyFloat.min_one_of_zero_le (PyFloat.zero_le_max x)
    have hle : PyFloat.le (.fin 0) (.fin q) = true := decide_eq_true h0
    simp only [clampValue, hq]
    rw [PyFloat.max_zero_of_le hle, PyFloat.min_one_of_le h1]
  | cacheBypass => rfl

/-- The attributes in the order of the source. -/
def chaosSchema : Schema ChaosField ChaosField.Value ChaosField.Gauge where
  fields := [.latencySeconds, .errorRate, .cacheBypass]
  norm := clampValue
  render := publishedValue
  mem_fields := fun f => by cases f <;> decide
  norm_norm := clampValue_clampValue

/-- The attributes of `chaos.state`, and the gauges `chaos_injected_latency_seconds`,
`chaos_error_rate` and `chaos_cache_bypass`. -/
abbrev ChaosModule := Memory ChaosField.Value ChaosField.Gauge

/-- `chaos.state`. -/
def ChaosModule.state (m : ChaosModule) : ChaosState where
  latencySeconds := m.value .latencySeconds
  errorRate := m.value .errorRate
  cacheBypass := m.value .cacheBypass

/-- `ChaosState()`, published. -/
def ChaosModule.init : ChaosModule where
  value
    | .latencySeconds => .fin 0
    | .errorRate => .fin 0
    | .cacheBypass => false
  gauge
    | .latencySeconds => .fin 0
    | .errorRate => .fin 0
    | .cacheBypass => 0

/-- The arguments of `update`. -/
structure ChaosArgs where
  latencySeconds : Option PyFloat := none
  errorRate : Option PyFloat := none
  cacheBypass : Option Bool := none
  deriving DecidableEq, Repr

/-- `update`. -/
def update (args : ChaosArgs) : Call chaosSchema where
  given
    | .latencySeconds => args.latencySeconds
    | .errorRate => args.errorRate
    | .cacheBypass => args.cacheBypass
  clamps := true
  total := nofun

/-- `reset`, which assigns every attribute and does not clamp. -/
def reset : Call chaosSchema where
  given
    | .latencySeconds => some (.fin 0)
    | .errorRate => some (.fin 0)
    | .cacheBypass => some false
  clamps := false
  total := fun _ f => by
    cases f with
    | latencySeconds => exact ⟨.fin 0, rfl, by decide +kernel⟩
    | errorRate => exact ⟨.fin 0, rfl, by decide +kernel⟩
    | cacheBypass => exact ⟨false, rfl, rfl⟩

/-- The calls. -/
inductive ChaosCall
  | update (args : ChaosArgs)
  | reset

def ChaosCall.call : ChaosCall → Call chaosSchema
  | .update args => Service.update args
  | .reset => Service.reset

/-- A call that no other one interrupts. -/
def ChaosModule.call (m : ChaosModule) (c : ChaosCall) : ChaosModule := chaosSchema.call m c.call

variable {ω : Type*}

/-- A step of a thread: it begins a call if it is not in one, and goes on otherwise. -/
def chaosStep (w : ω) (m : ChaosModule) (us : List (Op ChaosField.Value)) (c : Option ChaosCall) :
    Option (ChaosModule × List (Op ChaosField.Value)) :=
  chaosSchema.threadStep w m us (c.map ChaosCall.call)

/-- Threads that have made no call, when the module has been imported. -/
def chaosStart (ω : Type*) : Pool ω ChaosModule (List (Op ChaosField.Value)) :=
  Schema.start ω ChaosModule.init

/-! ## The ranges -/

/-- `latency_seconds` is a number that is not negative, and `error_rate` a probability. -/
structure InRange (c : ChaosState) : Prop where
  latency : PyFloat.le (.fin 0) c.latencySeconds = true
  latency_ne_nan : c.latencySeconds ≠ .nan
  errorRate : PyFloat.le (.fin 0) c.errorRate = true ∧ PyFloat.le c.errorRate (.fin 1) = true
  errorRate_ne_nan : c.errorRate ≠ .nan

/-- A field is in its range when `clamp` would not change it. -/
theorem inRange_of_normal {m : ChaosModule} (h : chaosSchema.Normal m) : InRange m.state := by
  have hlatency : PyFloat.max (.fin 0) m.state.latencySeconds = m.state.latencySeconds :=
    h .latencySeconds
  have hrate : PyFloat.min (.fin 1) (PyFloat.max (.fin 0) m.state.errorRate) = m.state.errorRate :=
    h .errorRate
  have hle : PyFloat.le (.fin 0) m.state.latencySeconds = true :=
    hlatency ▸ PyFloat.zero_le_max m.state.latencySeconds
  obtain ⟨q, hq, h0, h1⟩ := PyFloat.min_one_of_zero_le (PyFloat.zero_le_max m.state.errorRate)
  rw [hrate] at hq
  refine ⟨hle, fun hnan => ?_, ?_, ?_⟩
  · rw [hnan] at hle
    cases hle
  · rw [hq]
    exact ⟨decide_eq_true h0, decide_eq_true h1⟩
  · rw [hq]
    exact nofun

theorem normal_init : chaosSchema.Normal ChaosModule.init := fun f => by
  cases f with
  | latencySeconds | errorRate => decide +kernel
  | cacheBypass => rfl

theorem shown_init : chaosSchema.Shown ChaosModule.init := fun f => by cases f <;> rfl

variable [DecidableEq ω]

/-- An event of `chaosStep` stands for one of the schema's. -/
def schemaEvent (e : ω × Option ChaosCall) : ω × Option (Call chaosSchema) :=
  (e.1, e.2.map ChaosCall.call)

theorem step_chaosStep (s : Pool ω ChaosModule (List (Op ChaosField.Value)))
    (e : ω × Option ChaosCall) :
    Pool.step chaosStep s e = Pool.step chaosSchema.threadStep s (schemaEvent e) := rfl

theorem run_chaosStep (s : Pool ω ChaosModule (List (Op ChaosField.Value)))
    (es : List (ω × Option ChaosCall)) :
    run (Pool.step chaosStep) s es = run (Pool.step chaosSchema.threadStep) s (es.map schemaEvent) :=
  run_map step_chaosStep s es

/-- A reset that no other call interrupts leaves the module as it was when it was imported. -/
theorem call_reset (m : ChaosModule) : m.call .reset = ChaosModule.init := by
  have hvalue : ∀ f, (m.call .reset).value f = ChaosModule.init.value f := fun f => by
    cases f <;> exact (chaosSchema.value_call_of_given m reset rfl).trans (by decide +kernel)
  refine Memory.ext (funext hvalue) (funext fun f => ?_)
  calc (m.call .reset).gauge f = chaosSchema.render f ((m.call .reset).value f) :=
        chaosSchema.shown_call m reset f
    _ = chaosSchema.render f (ChaosModule.init.value f) := by rw [hvalue]
    _ = ChaosModule.init.gauge f := (shown_init f).symm

/-- **The chaos state stays in range for every input**: in every run of any number of threads, when
no call is in progress. From there, a call that no other one interrupts leaves the gauges showing
the state, and a reset leaves the module of a new process. Such an update changes only the fields it
is given, and changes nothing when it is made again. -/
theorem chaos_state_in_range {s : Pool ω ChaosModule (List (Op ChaosField.Value))}
    (h : Reachable (Pool.step chaosStep) (chaosStart ω) s) (hq : Schema.Quiescent s) :
    InRange s.shared.state ∧
      (∀ (w : ω) (c : ChaosCall),
        (∃ n, run (Pool.step chaosStep) s ((w, some c) :: List.replicate n (w, none)) =
          some ⟨s.shared.call c, s.thread⟩) ∧
        chaosSchema.Shown (s.shared.call c)) ∧
      s.shared.call .reset = ChaosModule.init ∧
      ∀ args : ChaosArgs,
        (∀ f, (update args).given f = none →
          (s.shared.call (.update args)).value f = s.shared.value f) ∧
        (s.shared.call (.update args)).call (.update args) = s.shared.call (.update args) := by
  obtain ⟨es, hrun⟩ := h
  rw [run_chaosStep] at hrun
  have hnormal := Schema.normal_of_quiescent normal_init ⟨_, hrun⟩ hq
  refine ⟨inRange_of_normal hnormal, fun w c => ⟨?_, ?_⟩, call_reset _, fun args => ⟨fun f hf => ?_, ?_⟩⟩
  · obtain ⟨n, hn⟩ := Schema.run_alone (S := chaosSchema) s.shared (hq w) c.call
    refine ⟨n, ?_⟩
    rw [run_chaosStep, List.map_cons, List.map_replicate]
    exact hn
  · exact Schema.shown_call _ _ _
  · exact Schema.value_call_of_not_given _ _ _ (hnormal f) hf
  · exact Schema.call_call _ _ _

/-- An update to an infinite latency, a negative error rate and no bypass, which is interrupted by
one to a latency and an error rate that are not numbers. -/
def chaosOutOfRange : List (Bool × Option ChaosCall) :=
  [(false, some (.update ⟨some .posInf, some (.fin (-1)), none⟩)),
    (true, some (.update ⟨some .nan, some .nan, none⟩))] ++
    List.replicate 13 (false, none) ++ List.replicate 13 (true, none)

theorem chaosOutOfRange_in_range : ∃ s,
    run (Pool.step chaosStep) (chaosStart Bool) chaosOutOfRange = some s ∧
      s.shared.state = ⟨.fin 0, .fin 0, false⟩ ∧ InRange s.shared.state := by
  obtain ⟨s, hs, hobs⟩ := Option.map_eq_some_iff.1 (show
    (run (Pool.step chaosStep) (chaosStart Bool) chaosOutOfRange).map
      (fun s => (s.shared.state, (s.thread false).isEmpty, (s.thread true).isEmpty)) =
      some (⟨.fin 0, .fin 0, false⟩, true, true) by decide +kernel)
  obtain ⟨hstate, h0, h1⟩ := by simpa using hobs
  have hq : Schema.Quiescent s := fun w => by cases w <;> assumption
  exact ⟨s, hs, hstate, (chaos_state_in_range ⟨chaosOutOfRange, hs⟩ hq).1⟩

/-! ## The order of the calls -/

/-- The calls that a run begins. -/
def begun (es : List (ω × Option ChaosCall)) : List ChaosCall := es.filterMap Prod.snd

/-- The state is that of the calls made one after the other in some order, and the gauges show
it. -/
def Serialized (es : List (ω × Option ChaosCall)) (m : ChaosModule) : Prop :=
  (∃ order : List ChaosCall, order.Perm (begun es) ∧
    m.state = (order.foldl ChaosModule.call ChaosModule.init).state) ∧ chaosSchema.Shown m

/-- A call begins when no other one has yet to assign an attribute that it is given, and what a call
in progress writes has not changed since it was read, unless another one will make that good. -/
def ChaosUndisturbed (s : Pool ω ChaosModule (List (Op ChaosField.Value)))
    (e : ω × Option ChaosCall) (s' : Pool ω ChaosModule (List (Op ChaosField.Value))) : Prop :=
  Schema.Undisturbed chaosSchema s (schemaEvent e) s'

omit [DecidableEq ω] in
theorem calls_map_schemaEvent (es : List (ω × Option ChaosCall)) :
    Schema.calls (es.map schemaEvent) = (begun es).map ChaosCall.call := by
  induction es with
  | nil => rfl
  | cons e es ih =>
    obtain ⟨w, _ | c⟩ := e
    · exact ih
    · exact congrArg _ ih

/-- **No update is lost** in the runs in which the calls are not disturbed. -/
theorem serialized_of_undisturbed {es : List (ω × Option ChaosCall)}
    {s : Pool ω ChaosModule (List (Op ChaosField.Value))}
    (hC : Along (Pool.step chaosStep) ChaosUndisturbed (chaosStart ω) es)
    (h : run (Pool.step chaosStep) (chaosStart ω) es = some s) (hq : Schema.Quiescent s) :
    Serialized es s.shared := by
  rw [run_chaosStep] at h
  obtain ⟨heq, hshown⟩ := Schema.eq_calls_of_undisturbed normal_init shown_init
    (along_map step_chaosStep hC) h hq
  refine ⟨⟨begun es, List.Perm.refl _, ?_⟩, hshown⟩
  rw [heq, calls_map_schemaEvent, List.foldl_map]
  rfl

instance [Fintype ω] (s : Pool ω ChaosModule (List (Op ChaosField.Value)))
    (e : ω × Option ChaosCall) (s' : Pool ω ChaosModule (List (Op ChaosField.Value))) :
    Decidable (ChaosUndisturbed s e s') :=
  inferInstanceAs (Decidable (Schema.Undisturbed chaosSchema s (schemaEvent e) s'))

/-- An update of the latency, and one of the error rate. -/
def latencyThenRate : List ChaosCall :=
  [.update ⟨some (.fin 2), none, none⟩, .update ⟨none, some (.fin 1), none⟩]

/-- Each of two threads assigns its attribute before the other one clamps. -/
def undisturbedUpdates : List (Bool × Option ChaosCall) :=
  [(false, some (.update ⟨some (.fin 2), none, none⟩)),
    (true, some (.update ⟨none, some (.fin 1), none⟩))] ++
    List.replicate 12 (false, none) ++ List.replicate 12 (true, none)

/-- One thread assigns its attribute after the other one has read it, to write it back. -/
def lostUpdate : List (Bool × Option ChaosCall) :=
  [(false, some (.update ⟨some (.fin 2), none, none⟩))] ++ List.replicate 3 (false, none) ++
    [(true, some (.update ⟨none, some (.fin 1), none⟩))] ++
    List.replicate 9 (false, none) ++ List.replicate 12 (true, none)

theorem serialized_undisturbedUpdates : ∃ s,
    run (Pool.step chaosStep) (chaosStart Bool) undisturbedUpdates = some s ∧
      s.shared.state = ⟨.fin 2, .fin 1, false⟩ ∧ Serialized undisturbedUpdates s.shared := by
  obtain ⟨s, hs, hobs⟩ := Option.map_eq_some_iff.1 (show
    (run (Pool.step chaosStep) (chaosStart Bool) undisturbedUpdates).map
      (fun s => (s.shared.state, (s.thread false).isEmpty, (s.thread true).isEmpty)) =
      some (⟨.fin 2, .fin 1, false⟩, true, true) by decide +kernel)
  obtain ⟨hstate, h0, h1⟩ := by simpa using hobs
  have hq : Schema.Quiescent s := fun w => by cases w <;> assumption
  exact ⟨s, hs, hstate, serialized_of_undisturbed (by decide +kernel) hs hq⟩

/-- Two calls can be made in two orders. -/
theorem eq_of_perm_pair {α : Type*} {a b : α} {xs : List α} (h : xs.Perm [a, b]) :
    xs = [a, b] ∨ xs = [b, a] := by
  obtain ⟨x, y, rfl⟩ := List.length_eq_two.1 h.length_eq
  have hx : x = a ∨ x = b := by simpa using h.subset (List.mem_cons_self (l := [y]))
  rcases hx with rfl | rfl
  · exact Or.inl (congrArg _ (List.perm_singleton.1 ((List.perm_cons x).1 h)))
  · have hswap := h.trans (List.Perm.swap x a [])
    exact Or.inr (congrArg _ (List.perm_singleton.1 ((List.perm_cons x).1 hswap)))

/-- The update of the error rate is then lost. -/
theorem lostUpdate_not_serialized : ∃ s,
    run (Pool.step chaosStep) (chaosStart Bool) lostUpdate = some s ∧ Schema.Quiescent s ∧
      begun lostUpdate = latencyThenRate ∧
      s.shared.state = ⟨.fin 2, .fin 0, false⟩ ∧ ¬ Serialized lostUpdate s.shared := by
  obtain ⟨s, hs, hobs⟩ := Option.map_eq_some_iff.1 (show
    (run (Pool.step chaosStep) (chaosStart Bool) lostUpdate).map
      (fun s => (s.shared.state, (s.thread false).isEmpty, (s.thread true).isEmpty)) =
      some (⟨.fin 2, .fin 0, false⟩, true, true) by decide +kernel)
  obtain ⟨hstate, h0, h1⟩ := by simpa using hobs
  have hq : Schema.Quiescent s := fun w => by cases w <;> assumption
  refine ⟨s, hs, hq, rfl, hstate, ?_⟩
  rintro ⟨⟨order, hperm, horder⟩, -⟩
  rw [hstate] at horder
  rcases eq_of_perm_pair hperm with rfl | rfl
  · exact absurd horder (by decide +kernel)
  · exact absurd horder (by decide +kernel)

end EdgeCache.Service
