import EdgeCache.Cache.Fleet

/-!
# Segments that are not cached

While no worker writes a segment that the backend of a replica does not hold, it stays that way:
Redis can lose entries by itself but not make them, and a flush only takes away (`absent_run`). A
`get_segment` that has begun and looked its segment up in that time is a miss, whatever Redis does
and whoever writes the segment afterwards, itself included (`misses_of_absent`). The invariant is on
the worker: what it has found for the segment is nothing (`Worker.NoHit`).
-/

namespace EdgeCache.Cache

open Transition

variable {ω ρ : Type*}

/-- The backend of replica `r` holds no entry for the segment. -/
def World.Absent (W : World ρ) (c : Replica) (r : ρ) (id : String) : Prop :=
  match c.backend with
  | .redis => W.redis (key id) = none
  | .memory => W.memory r (key id) = none

/-- The next step of worker `w` writes the segment to the backend of replica `r`. -/
def Worker.Writes (D : Deployment ω ρ) (r : ρ) (id : String) (w : ω) : Worker → Prop
  | .writing id' _ _ .redis => id' = id ∧ (D.config r).backend = .redis
  | .writingMemory id' _ _ (.assign _) => id' = id ∧ D.replica w = r
  | _ => False

/-- The step does not write the segment to the backend of replica `r`. -/
def NoWrite (D : Deployment ω ρ) (r : ρ) (id : String) (s : Fleet ω ρ) (e : ω × FleetAct)
    (_ : Fleet ω ρ) : Prop := ¬ (s.thread e.1).Writes D r id e.1

/-- A worker of replica `r` has found nothing for the segment, and did not return it as a hit. -/
def Worker.NoHit (c : Replica) (id : String) : Worker → Prop
  | .resting (some (id', .ok out)) => id' = id → out.cacheHit = false
  | .reading id' _ g => c.backend = .redis ∧ (id' = id → ∀ v, g.found ≠ some (some v))
  | .readingMemory id' _ m => c.backend = .memory ∧ (id' = id → m.found = none)
  | _ => True

/-- The worker is not in a lookup any more. -/
def Worker.HasLookedUp : Worker → Prop
  | .lookup _ => False
  | .reading _ _ _ => False
  | .readingMemory _ _ _ => False
  | _ => True

/-! ## The stores -/

theorem clientGet_eq_none {k k' : String} {store : RedisStore} (reply : Reply)
    (h : store k = none) : (clientGet k' reply store).1 k = none := by
  unfold clientGet
  split
  · exact h
  · exact h
  · rcases eq_or_ne k k' with rfl | hne
    · exact Function.update_self ..
    · simpa [hne] using h

/-- What is read under a key that has no entry. -/
theorem clientGet_ne_some {k : String} {store : RedisStore} {reply : Reply} (h : store k = none)
    (v : Bytes) : (clientGet k reply store).2 ≠ some (some v) := by
  unfold clientGet
  split <;> simp [h]

theorem clientSet_eq_none {k k' : String} {store : RedisStore} (data : Bytes) (reply : Reply)
    (hne : k ≠ k') (h : store k = none) : (clientSet k' data reply store).1 k = none := by
  unfold clientSet
  split <;> simp [Function.update_of_ne hne, h]

theorem clientFlushdb_eq_none {k : String} {store : RedisStore} (reply : Reply)
    (h : store k = none) : clientFlushdb reply store k = none := by
  unfold clientFlushdb
  split
  · exact h
  · rfl

theorem memGetStep_eq_none {k k' : String} {now : ℚ} {m m' : MemoryStore} {t t' : MemGet}
    (h : m k = none) (hstep : memGetStep k' now m t = some (m', t')) : m' k = none := by
  cases t with
  | lookup =>
    simp only [memGetStep] at hstep
    split at hstep <;> obtain ⟨rfl, rfl⟩ := Prod.mk.inj (Option.some.inj hstep) <;> exact h
  | check =>
    obtain ⟨rfl, rfl⟩ := Prod.mk.inj (Option.some.inj hstep)
    exact h
  | pop =>
    obtain ⟨rfl, rfl⟩ := Prod.mk.inj (Option.some.inj hstep)
    rcases eq_or_ne k k' with rfl | hne
    · exact Function.update_self ..
    · rwa [Function.update_of_ne hne]
  | done => cases hstep

theorem memSetStep_eq_none {k k' : String} {data : Bytes} {ttl : ℤ} {now : ℚ} {m m' : MemoryStore}
    {t t' : MemSet} (hne : ∀ x, t = .assign x → k ≠ k') (h : m k = none)
    (hstep : memSetStep k' data ttl now m t = some (m', t')) : m' k = none := by
  cases t with
  | stamp =>
    rw [memSetStep_stamp] at hstep
    obtain ⟨rfl, -⟩ := Prod.mk.inj (Option.some.inj hstep)
    exact h
  | assign x =>
    obtain ⟨rfl, -⟩ := Prod.mk.inj (Option.some.inj hstep)
    rwa [Function.update_of_ne (hne x rfl)]
  | done => cases hstep

/-- What is found under a key that has no entry. -/
theorem found_memGetStep {k : String} {now : ℚ} {m m' : MemoryStore} {t t' : MemGet}
    (h : m k = none) (ht : t.found = none) (hstep : memGetStep k now m t = some (m', t')) :
    t'.found = none := by
  cases t with
  | lookup =>
    simp only [memGetStep, h] at hstep
    obtain ⟨rfl, rfl⟩ := Prod.mk.inj (Option.some.inj hstep)
    rfl
  | check => cases ht
  | pop =>
    obtain ⟨rfl, rfl⟩ := Prod.mk.inj (Option.some.inj hstep)
    rfl
  | done => cases hstep

variable [DecidableEq ρ] {D : Deployment ω ρ} {W W' : World ρ} {r : ρ} {now : ℚ} {id : String}

/-! ## What stays absent -/

omit [DecidableEq ρ] in
theorem absent_of_eq {c : Replica} (h : W.Absent c r id) (hredis : W'.redis = W.redis)
    (hmemory : W'.memory = W.memory) : W'.Absent c r id := by
  unfold World.Absent at h ⊢
  rwa [hredis, hmemory]

theorem absent_flush {c c' : Replica} {r' : ρ} (h : W.Absent c r id) (reply : Reply) :
    (W.flush c' r' reply).Absent c r id := by
  unfold World.Absent at h ⊢
  unfold World.flush
  split at h
  · split
    · exact clientFlushdb_eq_none reply h
    · exact h
  · split
    · exact h
    · rcases eq_or_ne r r' with rfl | hne
      · simp [memFlushdb]
      · simpa [hne] using h

/-- A step behind the breaker, whose client call does not make the entry. -/
theorem absent_guard {ν : Type*} {c c' : Replica} {r' : ρ} {call : RedisStore → RedisStore × Option ν}
    {g g' : Guard ν} (h : W.Absent c r id)
    (hcall : g.atRedis = true → c.backend = .redis → W.redis (key id) = none →
      (call W.redis).1 (key id) = none)
    (hstep : W.guard c' r' now call g = some (W', g')) : W'.Absent c r id := by
  obtain ⟨p, -, rfl⟩ := guard_eq_some.1 hstep
  unfold World.Absent at h ⊢
  split at h
  · next hb =>
    simp only
    split_ifs with hat
    · exact hcall hat hb h
    · exact h
  · exact h

/-- A step of a call of an in-memory store, which does not make the entry. -/
theorem absent_inMemory {τ : Type*} {c : Replica} {r' : ρ}
    {call : MemoryStore → Option (MemoryStore × τ)} {t : τ} (h : W.Absent c r id)
    (hcall : r = r' → ∀ m, call (W.memory r) = some (m, t) → W.memory r (key id) = none →
      m (key id) = none)
    (hstep : W.inMemory r' call = some (W', t)) : W'.Absent c r id := by
  obtain ⟨m, hm, rfl⟩ := inMemory_eq_some.1 hstep
  unfold World.Absent at h ⊢
  split at h
  · exact h
  · rcases eq_or_ne r r' with rfl | hne
    · simpa using hcall rfl m hm h
    · simpa [hne] using h

/-- A step of `get_segment`. -/
theorem absent_segmentEffect {w : ω} {reply : Reply} {elapsed : ℚ} {t t' : Worker}
    (h : W.Absent (D.config r) r id) (hw : ¬ t.Writes D r id w)
    (heff : SegmentEffect D (D.replica w) now reply elapsed W t W' t') :
    W'.Absent (D.config r) r id := by
  cases heff with
  | read id' span g g' _ hq =>
    exact absent_guard h (fun _ _ hnone => clientGet_eq_none reply hnone) hq
  | write id' data e g g' _ hq =>
    refine absent_guard h (fun hat hb hnone => ?_) hq
    cases g with
    | redis =>
      have hne : key id ≠ key id' := fun hk => hw ⟨(key_injective hk).symm, hb⟩
      exact clientSet_eq_none data reply hne hnone
    | _ => cases hat
  | readMemory id' span m m' _ hq =>
    exact absent_inMemory h (fun _ M hm hnone => memGetStep_eq_none hnone hm) hq
  | writeMemory id' data e m m' _ hq =>
    refine absent_inMemory h (fun hr M hm hnone => ?_) hq
    refine memSetStep_eq_none (fun x hx hk => ?_) hnone hm
    subst hx
    exact hw ⟨(key_injective hk).symm, hr.symm⟩
  | _ => exact h

theorem absent_fleetStep {w : ω} {t t' : Worker} {a : FleetAct} (h : W.Absent (D.config r) r id)
    (hw : ¬ t.Writes D r id w) (hstep : fleetStep D w W t a = some (W', t')) :
    W'.Absent (D.config r) r id := by
  obtain ⟨-, W₁, rfl, heff⟩ := fleetStep_effect hstep
  refine absent_of_eq (W := W₁) ?_ rfl rfl
  cases heff with
  | call => exact h
  | flush => exact absent_flush h _
  | go reply elapsed heff => exact absent_segmentEffect h hw heff

/-! ## What is not found -/

theorem noHit_afterRead {c : Replica} {id' : String} {cached : Option Bytes}
    (h : id' = id → cached = none) : (afterRead id' cached).NoHit c id := by
  cases cached with
  | none => trivial
  | some v =>
    intro hid
    cases h hid

theorem noHit_afterFetch (c c' : Replica) (id' : String) (bypass : Bool) (data : Bytes) (e : ℚ) :
    (afterFetch c' id' bypass data e).NoHit c id := by
  unfold afterFetch
  split
  · exact fun _ => rfl
  · split <;> trivial

/-- Until it has looked the segment up, the worker depends on its being absent. -/
theorem noHit_segmentEffect {reply : Reply} {elapsed : ℚ} {t t' : Worker}
    (h : t.HasLookedUp ∨ W.Absent (D.config r) r id) (ht : t.NoHit (D.config r) id)
    (heff : SegmentEffect D r now reply elapsed W t W' t') : t'.NoHit (D.config r) id := by
  cases heff with
  | lookup id' hb => exact ⟨hb, fun _ v => nofun⟩
  | lookupMemory id' hb => exact ⟨hb, fun _ => rfl⟩
  | read id' span g g' _ hq =>
    refine ⟨ht.1, fun hid v hv => ?_⟩
    subst hid
    obtain ⟨p, hguard, -⟩ := guard_eq_some.1 hq
    rcases found_guardStep hguard with ⟨rfl, hfound⟩ | ⟨-, hfound⟩
    · have habs : W.redis (key id') = none := by
        have habsent := h.resolve_left id
        unfold World.Absent at habsent
        rwa [ht.1] at habsent
      exact clientGet_ne_some habs v (hfound.symm.trans hv)
    · exact ht.2 rfl v (hfound _ hv)
  | readDone id' span o =>
    refine noHit_afterRead fun hid => ?_
    cases hjoin : o.value.join with
    | none => rfl
    | some v => exact absurd (Option.join_eq_some_iff.1 hjoin) (ht.2 hid v)
  | readMemory id' span m m' _ hq =>
    refine ⟨ht.1, fun hid => ?_⟩
    subst hid
    have habs : W.memory r (key id') = none := by
      have habsent := h.resolve_left id
      unfold World.Absent at habsent
      rwa [ht.1] at habsent
    obtain ⟨M, hM, -⟩ := inMemory_eq_some.1 hq
    exact found_memGetStep habs (ht.2 rfl) hM
  | readMemoryDone id' span cached => exact noHit_afterRead ht.2
  | fetched => exact noHit_afterFetch _ _ _ _ _ _
  | writeDone => exact fun _ => rfl
  | writeMemoryDone id' data e written =>
    cases written with
    | ok => exact fun _ => rfl
    | error => trivial
  | fetchRaised | write | writeMemory => trivial

/-- A call does not look up again. -/
theorem hasLookedUp_segmentEffect {reply : Reply} {elapsed : ℚ} {t t' : Worker} (ht : t.HasLookedUp)
    (heff : SegmentEffect D r now reply elapsed W t W' t') : t'.HasLookedUp := by
  cases heff with
  | lookup | lookupMemory | read | readDone | readMemory | readMemoryDone => exact ht.elim
  | fetched =>
    unfold afterFetch
    split
    · trivial
    · split <;> trivial
  | fetchRaised | write | writeDone | writeMemory | writeMemoryDone => trivial

theorem noHit_fleetStep {w : ω} {t t' : Worker} {a : FleetAct}
    (h : W.Absent (D.config (D.replica w)) (D.replica w) id)
    (ht : t.NoHit (D.config (D.replica w)) id) (hstep : fleetStep D w W t a = some (W', t')) :
    t'.NoHit (D.config (D.replica w)) id := by
  obtain ⟨-, W₁, -, heff⟩ := fleetStep_effect hstep
  cases heff with
  | call last id' bypass => cases bypass <;> trivial
  | flush => trivial
  | go reply elapsed heff => exact noHit_segmentEffect (Or.inr h) ht heff

/-! ## The runs -/

variable [DecidableEq ω]

/-- **What no one writes stays absent.** -/
theorem absent_run {s s' : Fleet ω ρ} {es : List (ω × FleetAct)}
    (hC : Along (Pool.step (fleetStep D)) (NoWrite D r id) s es)
    (h : run (Pool.step (fleetStep D)) s es = some s') (habs : s.shared.Absent (D.config r) r id) :
    s'.shared.Absent (D.config r) r id := by
  refine hC.invariant (I := fun s => s.shared.Absent (D.config r) r id) ?_ habs h
  rintro s ⟨w, a⟩ s' hI hw he
  obtain ⟨W', t, hstep, rfl⟩ := Pool.step_eq_some.1 he
  exact absent_fleetStep hI hw hstep

theorem noHit_run {w : ω} {s s' : Fleet ω ρ} {es : List (ω × FleetAct)}
    (hC : Along (Pool.step (fleetStep D)) (NoWrite D (D.replica w) id) s es)
    (h : run (Pool.step (fleetStep D)) s es = some s')
    (habs : s.shared.Absent (D.config (D.replica w)) (D.replica w) id)
    (hw : (s.thread w).NoHit (D.config (D.replica w)) id) :
    (s'.thread w).NoHit (D.config (D.replica w)) id := by
  have key : ∀ (s : Fleet ω ρ) e s', (s.shared.Absent (D.config (D.replica w)) (D.replica w) id ∧
      (s.thread w).NoHit (D.config (D.replica w)) id) → NoWrite D (D.replica w) id s e s' →
      Pool.step (fleetStep D) s e = some s' →
      s'.shared.Absent (D.config (D.replica w)) (D.replica w) id ∧
        (s'.thread w).NoHit (D.config (D.replica w)) id := by
    rintro s ⟨v, a⟩ s' ⟨habs, hw⟩ hv he
    obtain ⟨W', t, hstep, rfl⟩ := Pool.step_eq_some.1 he
    refine ⟨absent_fleetStep habs hv hstep, ?_⟩
    rcases eq_or_ne w v with rfl | hne
    · simpa using noHit_fleetStep habs hw hstep
    · simpa [hne] using hw
  exact (hC.invariant key ⟨habs, hw⟩ h).2

omit [DecidableEq ω] in
/-- A call of `get_segment` begins with the lookup. -/
theorem thread_of_getSegment {w : ω} {t t' : Worker}
    (h : fleetStep D w W t ⟨now, .getSegment id false⟩ = some (W', t')) : t' = .lookup id := by
  simp only [fleetStep] at h
  split_ifs at h
  cases t with
  | resting last =>
    obtain ⟨-, rfl⟩ := Prod.mk.inj (Option.some.inj h)
    rfl
  | _ => cases h

/-- A call that has looked up, as long as its worker goes on with it. -/
theorem noHit_run_go {w : ω} {s s' : Fleet ω ρ} {es : List (ω × FleetAct)}
    (hgo : ∀ e ∈ es, e.1 = w → ∃ reply elapsed, e.2.input = .go reply elapsed)
    (h : run (Pool.step (fleetStep D)) s es = some s') (hlooked : (s.thread w).HasLookedUp)
    (hw : (s.thread w).NoHit (D.config (D.replica w)) id) :
    (s'.thread w).NoHit (D.config (D.replica w)) id := by
  have key : ∀ (s : Fleet ω ρ) (e : ω × FleetAct) s',
      ((s.thread w).HasLookedUp ∧ (s.thread w).NoHit (D.config (D.replica w)) id) →
      (e.1 = w → ∃ reply elapsed, e.2.input = .go reply elapsed) →
      Pool.step (fleetStep D) s e = some s' →
      (s'.thread w).HasLookedUp ∧ (s'.thread w).NoHit (D.config (D.replica w)) id := by
    rintro s ⟨v, ⟨now, input⟩⟩ s' ⟨hlooked, hw⟩ hgo he
    obtain ⟨W', t, hstep, rfl⟩ := Pool.step_eq_some.1 he
    rcases eq_or_ne w v with rfl | hne
    · obtain ⟨reply, elapsed, rfl⟩ := hgo rfl
      obtain ⟨-, W₁, heff, -⟩ := fleetStep_go.1 hstep
      simpa using And.intro (hasLookedUp_segmentEffect hlooked heff)
        (noHit_segmentEffect (Or.inl hlooked) hw heff)
    · simpa [hne] using And.intro hlooked hw
  exact ((along_of_forall hgo).invariant key ⟨hlooked, hw⟩ h).2

/-- **A segment that is absent is missed** by every `get_segment` that begins, if no one writes it
before the call has looked it up. -/
theorem misses_of_absent {w : ω} {s s₁ s₂ s' : Fleet ω ρ} {pre mid post : List (ω × FleetAct)}
    {now : ℚ} {out : SegmentResult}
    (habs : s.shared.Absent (D.config (D.replica w)) (D.replica w) id)
    (hC : Along (Pool.step (fleetStep D)) (NoWrite D (D.replica w) id) s
      (pre ++ (w, ⟨now, .getSegment id false⟩) :: mid))
    (hpre : run (Pool.step (fleetStep D)) s pre = some s₁)
    (hmid : run (Pool.step (fleetStep D)) s₁ ((w, ⟨now, .getSegment id false⟩) :: mid) = some s₂)
    (hlooked : (s₂.thread w).HasLookedUp)
    (hgo : ∀ e ∈ post, e.1 = w → ∃ reply elapsed, e.2.input = .go reply elapsed)
    (hpost : run (Pool.step (fleetStep D)) s₂ post = some s')
    (hout : s'.thread w = .resting (some (id, .ok out))) : out.cacheHit = false := by
  obtain ⟨hCpre, hCmid⟩ := (along_append hpre).1 hC
  obtain ⟨s₃, hcall, hrest⟩ := (run_cons_eq_some _).1 hmid
  have hnoWrite := (hCmid s₃ hcall).1
  obtain ⟨W', t, hstep, rfl⟩ := Pool.step_eq_some.1 hcall
  have habs₁ := absent_fleetStep (absent_run hCpre hpre habs) hnoWrite hstep
  have hlookup := thread_of_getSegment hstep
  have hfound := noHit_run (hCmid.tail hcall) hrest habs₁ (by simp [hlookup, Worker.NoHit])
  have hmiss := noHit_run_go hgo hpost hlooked hfound
  rw [hout] at hmiss
  exact hmiss rfl

end EdgeCache.Cache
