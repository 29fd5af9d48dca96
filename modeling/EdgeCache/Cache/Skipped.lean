import EdgeCache.Cache.Gauge

/-!
# The `redis.skipped` attribute

The `cache.lookup` span of a `get_segment` says that the lookup skipped Redis when the breaker was
OPEN as the span was opened. Whether the lookup does skip Redis is decided afterwards, in `allow`:
it does when the breaker is HALF_OPEN, or OPEN and still in its cooldown (`Refuses`). A lookup that
finds the breaker OPEN at the end of its cooldown is the probe and is marked as skipped; one that
finds it HALF_OPEN is refused and is not.

In a run, the attribute tells the truth about every lookup exactly when the state that each lookup
saw first foretells what `allow` then decides (`truthful_iff_foretold`).
-/

namespace EdgeCache.Cache

open Breaker CircuitBreaker Transition

variable {ν : Type*} {ω ρ : Type*} {D : Deployment ω ρ} {W W' : World ρ} {now : ℚ}

/-! ## What `allow` decides -/

/-- The breaker refuses a call that asks when the clock reads `now`. -/
def Refuses (c : Config) (now : ℚ) (b : CircuitBreaker) : Prop :=
  c.cbEnabled = true ∧
    (b.state = .halfOpen ∨ (b.state = .opened ∧ ¬ c.breaker.Elapsed b.openedAt now))

/-- The call did not reach the client, because the breaker refused it. -/
def Guard.refused : Guard ν → Bool
  | .setOk .skipped => true
  | .setUp .skipped => true
  | .done .skipped => true
  | _ => false

/-- The first step of a call decides whether it is refused. -/
theorem refused_of_allow {c : Config} {reply : Option ν} {p p' : Proc} {g : Guard ν}
    (hw : WellFormed c.breaker p.breaker) (h : guardStep c now reply p .allow = some (p', g)) :
    g ≠ .allow ∧ (g.refused = true ↔ Refuses c now p.breaker) := by
  simp only [guardStep] at h
  split_ifs at h with hcb
  · rcases hw.allow_cases now with ⟨hs, ha⟩ | ⟨hs, he, ha⟩ | ⟨hs, he, ha⟩ | ⟨hs, ha⟩ <;>
      rw [ha] at h <;> obtain ⟨rfl, rfl⟩ := Prod.mk.inj (Option.some.inj h)
    · simp [Guard.refused, Refuses, hs]
    · simp [Guard.refused, Refuses, hs, he]
    · simp [Guard.refused, Refuses, hs, he, hcb]
    · simp [Guard.refused, Refuses, hs, hcb]
  · obtain ⟨rfl, rfl⟩ := Prod.mk.inj (Option.some.inj h)
    simp [Guard.refused, Refuses, hcb]

/-- The later ones do not change that. -/
theorem refused_guardStep {c : Config} {reply : Option ν} {p p' : Proc} {g g' : Guard ν}
    (hg : g ≠ .allow) (h : guardStep c now reply p g = some (p', g')) :
    g' ≠ .allow ∧ g'.refused = g.refused := by
  cases g with
  | allow => exact absurd rfl hg
  | redis =>
    simp only [guardStep] at h
    split at h <;> obtain ⟨rfl, rfl⟩ := Prod.mk.inj (Option.some.inj h) <;> exact ⟨by simp, rfl⟩
  | setOk o | setUp o =>
    obtain ⟨rfl, rfl⟩ := Prod.mk.inj (Option.some.inj h)
    cases o <;> exact ⟨by simp, rfl⟩
  | success | failure | countError =>
    obtain ⟨rfl, rfl⟩ := Prod.mk.inj (Option.some.inj h)
    exact ⟨by simp, rfl⟩
  | done => cases h

/-! ## The span of a lookup -/

/-- `redis.skipped` is set from `redis.circuit_state`. -/
def Worker.Spanned : Worker → Prop
  | .reading _ span _ => span.redisSkipped = true ↔ span.circuitState = .opened
  | _ => True

/-- Once it is decided whether the lookup skips Redis, the span says so. -/
def Worker.Truthful : Worker → Prop
  | .reading _ span g => g ≠ .allow → (span.redisSkipped = true ↔ g.refused = true)
  | _ => True

/-- The state of the breaker that the lookup has seen foretells the decision that it is about to
get. -/
def Foretells (c : Config) (now : ℚ) (b : CircuitBreaker) : Worker → Prop
  | .reading _ span .allow => span.circuitState = .opened ↔ Refuses c now b
  | _ => True

theorem spanned_afterRead (id : String) (cached : Option Bytes) :
    (afterRead id cached).Spanned ∧ (afterRead id cached).Truthful := by
  cases cached <;> exact ⟨trivial, trivial⟩

theorem spanned_afterFetch (c : Replica) (id : String) (bypass : Bool) (data : Bytes) (e : ℚ) :
    (afterFetch c id bypass data e).Spanned ∧ (afterFetch c id bypass data e).Truthful := by
  unfold afterFetch
  split
  · exact ⟨trivial, trivial⟩
  · split <;> exact ⟨trivial, trivial⟩

variable [DecidableEq ρ]

/-- What a step of a worker does to its span: it ends outside of a lookup or at the start of one, or
takes a step of the lookup. -/
theorem span_fleetStep {w : ω} {t t' : Worker} {a : FleetAct}
    (h : fleetStep D w W t a = some (W', t')) :
    (t'.Spanned ∧ t'.Truthful ∧ ∀ id span, t ≠ .reading id span .allow) ∨
      ∃ id span g g' reply p', t = .reading id span g ∧ t' = .reading id span g' ∧
        guardStep (D.config (D.replica w)).guard a.now reply (W.proc (D.replica w)) g =
          some (p', g') := by
  obtain ⟨-, W₁, -, heff⟩ := fleetStep_effect h
  cases heff with
  | call last id bypass => cases bypass <;> exact Or.inl ⟨trivial, trivial, nofun⟩
  | flush => exact Or.inl ⟨trivial, trivial, nofun⟩
  | go reply elapsed heff =>
    cases heff with
    | read id span g g' _ hq =>
      obtain ⟨⟨p', g₁⟩, hguard, heq⟩ := Option.map_eq_some_iff.1 hq
      obtain ⟨-, rfl⟩ := Prod.mk.inj heq
      exact Or.inr ⟨id, span, g, g₁, _, p', rfl, rfl, hguard⟩
    | lookup => exact Or.inl ⟨by simp [Worker.Spanned, lookupSpan], fun hne => absurd rfl hne, nofun⟩
    | readDone => exact Or.inl ⟨(spanned_afterRead _ _).1, (spanned_afterRead _ _).2, nofun⟩
    | readMemoryDone => exact Or.inl ⟨(spanned_afterRead _ _).1, (spanned_afterRead _ _).2, nofun⟩
    | fetched =>
      exact Or.inl ⟨(spanned_afterFetch _ _ _ _ _).1, (spanned_afterFetch _ _ _ _ _).2, nofun⟩
    | lookupMemory | readMemory | fetchRaised | write | writeDone | writeMemory | writeMemoryDone =>
      exact Or.inl ⟨trivial, trivial, nofun⟩

theorem spanned_fleetStep {w : ω} {t t' : Worker} {a : FleetAct} (ht : t.Spanned)
    (h : fleetStep D w W t a = some (W', t')) : t'.Spanned := by
  rcases span_fleetStep h with ⟨hs, -⟩ | ⟨id, span, g, g', reply, p', rfl, rfl, -⟩
  · exact hs
  · exact ht

/-- A step of a lookup keeps its span truthful exactly when the state that it has seen foretells the
decision, if this is the step that decides. -/
theorem truthful_fleetStep_iff {w : ω} {t t' : Worker} {a : FleetAct}
    (hw : WellFormed (D.config (D.replica w)).guard.breaker (W.proc (D.replica w)).breaker)
    (hs : t.Spanned) (ht : t.Truthful) (h : fleetStep D w W t a = some (W', t')) :
    t'.Truthful ↔ Foretells (D.config (D.replica w)).guard a.now (W.proc (D.replica w)).breaker t := by
  rcases span_fleetStep h with ⟨-, ht', hne⟩ | ⟨id, span, g, g', reply, p', rfl, rfl, hq⟩
  · refine iff_of_true ht' ?_
    unfold Foretells
    split
    · exact absurd rfl (hne _ _)
    · trivial
  · by_cases hg : g = .allow
    · subst hg
      obtain ⟨hg', hrefused⟩ := refused_of_allow hw hq
      simp only [Worker.Truthful, hg', ne_eq, not_false_eq_true, true_implies, Foretells, hrefused]
      rw [show span.redisSkipped = true ↔ span.circuitState = .opened from hs]
    · obtain ⟨hg', hrefused⟩ := refused_guardStep hg hq
      refine iff_of_true (fun _ => ?_) ?_
      · rw [hrefused]
        exact ht hg
      · unfold Foretells
        split
        · next heq => cases heq; exact absurd rfl hg
        · trivial

/-! ## The runs -/

variable [DecidableEq ω]

/-- After the step, the span of every lookup tells the truth. -/
def Truthful (_ : Fleet ω ρ) (_ : ω × FleetAct) (s' : Fleet ω ρ) : Prop :=
  ∀ w, (s'.thread w).Truthful

/-- At the step, the state of the breaker that the lookup has seen foretells the decision it
gets. -/
def Foretold (D : Deployment ω ρ) (s : Fleet ω ρ) (e : ω × FleetAct) (_ : Fleet ω ρ) : Prop :=
  Foretells (D.config (D.replica e.1)).guard e.2.now (s.shared.proc (D.replica e.1)).breaker
    (s.thread e.1)

/-- The states from which a step can make the first lie. -/
structure Honest (D : Deployment ω ρ) (t₀ : ρ → ℚ) (s : Fleet ω ρ) : Prop where
  reachable : Reachable (Pool.step (fleetStep D)) (launch D t₀) s
  spanned : ∀ w, (s.thread w).Spanned
  truthful : ∀ w, (s.thread w).Truthful

theorem Honest.launch (D : Deployment ω ρ) (t₀ : ρ → ℚ) : Honest D t₀ (launch D t₀) :=
  ⟨Reachable.refl _, fun _ => trivial, fun _ => trivial⟩

theorem Honest.step {t₀ : ρ → ℚ} {s s' : Fleet ω ρ} {e : ω × FleetAct} (hI : Honest D t₀ s)
    (he : Pool.step (fleetStep D) s e = some s') :
    (Truthful s e s' ↔ Foretold D s e s') ∧ (Truthful s e s' → Honest D t₀ s') := by
  have hreach := hI.reachable.concat he
  obtain ⟨w, a⟩ := e
  obtain ⟨W', t, hstep, rfl⟩ := Pool.step_eq_some.1 he
  have hiff := truthful_fleetStep_iff (wellFormed_breaker hI.reachable _) (hI.spanned w)
    (hI.truthful w) hstep
  have hspanned : ∀ v, (Function.update s.thread w t v).Spanned := fun v => by
    rcases eq_or_ne v w with rfl | hne
    · simpa using spanned_fleetStep (hI.spanned v) hstep
    · simpa [hne] using hI.spanned v
  refine ⟨⟨fun htr => ?_, fun hf v => ?_⟩, fun htr => ⟨hreach, hspanned, htr⟩⟩
  · have := htr w
    simp only [Function.update_self] at this
    exact hiff.1 this
  · rcases eq_or_ne v w with rfl | hne
    · simpa using hiff.2 hf
    · simpa [hne] using hI.truthful v

/-- **`redis.skipped` tells the truth exactly in the runs in which what each lookup sees of the
breaker foretells what the breaker then decides.** -/
theorem truthful_iff_foretold (D : Deployment ω ρ) (t₀ : ρ → ℚ) (es : List (ω × FleetAct)) :
    Along (Pool.step (fleetStep D)) Truthful (launch D t₀) es ↔
      Along (Pool.step (fleetStep D)) (Foretold D) (launch D t₀) es := by
  constructor
  · intro h
    refine h.intro (I := Honest D t₀) (fun s e s' hI htr he => ?_) (Honest.launch D t₀)
    exact ⟨(hI.step he).2 htr, (hI.step he).1.1 htr⟩
  · intro h
    refine h.intro (I := Honest D t₀) (fun s e s' hI hf he => ?_) (Honest.launch D t₀)
    have htr := (hI.step he).1.2 hf
    exact ⟨(hI.step he).2 htr, htr⟩

/-- After three errors have opened the breaker, the request gives up on its write, and asks again
when the cooldown has elapsed. A second worker asks while it waits for Redis. -/
def probeAndRefusal : List (ℕ × FleetAct) :=
  threeErrors ++ List.replicate 9 (0, ⟨3, .go (.raises false) (3 / 20)⟩) ++
    [(0, ⟨9, .getSegment "a" false⟩)] ++ List.replicate 2 (0, ⟨9, .go (.answers true) 0⟩) ++
    [(1, ⟨9, .getSegment "b" false⟩)] ++ List.replicate 2 (1, ⟨9, .go (.answers true) 0⟩)

/-- The half-open probe is then marked as skipped, and the request that is refused while the probe
is pending is not. -/
theorem probe_marked_skipped : ∃ s,
    run (Pool.step (fleetStep (withBreaker true))) (launch (withBreaker true) fun _ => 0)
        probeAndRefusal = some s ∧
      s.thread 0 = .reading "a" ⟨.opened, true⟩ .redis ∧
      s.thread 1 = .reading "b" ⟨.halfOpen, false⟩ (.setOk .skipped) ∧
      ¬ (s.thread 0).Truthful ∧ ¬ (s.thread 1).Truthful ∧
      ¬ Along (Pool.step (fleetStep (withBreaker true))) Truthful
        (launch (withBreaker true) fun _ => 0) probeAndRefusal := by
  obtain ⟨s, hs, hobs⟩ := Option.map_eq_some_iff.1 (show
    (run (Pool.step (fleetStep (withBreaker true))) (launch (withBreaker true) fun _ => 0)
      probeAndRefusal).map (fun s => (s.thread 0, s.thread 1)) =
      some (.reading "a" ⟨.opened, true⟩ .redis, .reading "b" ⟨.halfOpen, false⟩ (.setOk .skipped))
      by decide +kernel)
  obtain ⟨h0, h1⟩ := Prod.mk.inj hobs
  have hprobe : ¬ (s.thread 0).Truthful := by
    rw [h0]
    simp [Worker.Truthful, Guard.refused]
  have hrefusal : ¬ (s.thread 1).Truthful := by
    rw [h1]
    simp [Worker.Truthful, Guard.refused]
  refine ⟨s, hs, h0, h1, hprobe, hrefusal, fun htr => hprobe ?_⟩
  exact htr.invariant (I := fun s => ∀ w, (s.thread w).Truthful) (fun _ _ _ _ hC _ => hC)
    (fun _ => trivial) hs 0

end EdgeCache.Cache
