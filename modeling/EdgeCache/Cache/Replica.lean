import EdgeCache.Cache.Fleet

/-!
# Each replica is a process of workers

What the workers of a strict replica do to its breaker and to the health that it reports is a run of
the workers of `EdgeCache.Cache.Guard`, whatever Redis, the other replicas and their workers do
(`refines_workers`). A worker corresponds to one that is at the same place in `_read` or `_write`,
and outside of them to one that is done with its call (`Worker.guard`); which value Redis returned
does not matter for that, so it is forgotten (`Guard.map`).

So what is proved of those workers, and of the breaker alone, holds of every replica: its breaker is
well formed (`wellFormed_replica`), and when it is HALF_OPEN a worker of the replica is in its
client call (`exists_calling_of_replica_halfOpen`).
-/

namespace EdgeCache.Cache

open Breaker Transition

variable {ν μ : Type*}

/-! ## Forgetting the values -/

def Outcome.map (f : ν → μ) : Outcome ν → Outcome μ
  | .skipped => .skipped
  | .answered v => .answered (f v)
  | .raised => .raised

def Guard.map (f : ν → μ) : Guard ν → Guard μ
  | .allow => .allow
  | .redis => .redis
  | .success v => .success (f v)
  | .failure => .failure
  | .setOk o => .setOk (o.map f)
  | .setUp o => .setUp (o.map f)
  | .countError => .countError
  | .done o => .done (o.map f)

@[simp] theorem Outcome.ok_map (f : ν → μ) (o : Outcome ν) : (o.map f).ok = o.ok := by
  cases o <;> rfl

@[simp] theorem Guard.rank_map (f : ν → μ) (g : Guard ν) : (g.map f).rank = g.rank := by
  cases g <;> rfl

theorem Guard.map_unit (f : Unit → Unit) (g : Guard Unit) : g.map f = g := by
  cases g with
  | setOk o | setUp o | done o => cases o <;> rfl
  | _ => rfl

/-- A step depends neither on the values nor on the clock of the process. -/
theorem guardStep_map {cfg : Config} {now t : ℚ} {reply : Option ν} {p p' : Proc} {g g' : Guard ν}
    (f : ν → μ) (h : guardStep cfg now reply p g = some (p', g')) :
    guardStep cfg now (reply.map f) { p with clock := t } (g.map f) =
      some ({ p' with clock := t }, g'.map f) := by
  cases g with
  | allow =>
    simp only [guardStep, Guard.map] at h ⊢
    split_ifs at h with hcb
    · rw [if_pos hcb]
      rcases hb : p.breaker.allow cfg.breaker now with ⟨_ | _, b⟩ <;> rw [hb] at h <;>
        obtain ⟨rfl, rfl⟩ := Prod.mk.inj (Option.some.inj h) <;> rfl
    · rw [if_neg hcb]
      obtain ⟨rfl, rfl⟩ := Prod.mk.inj (Option.some.inj h)
      rfl
  | redis =>
    cases reply with
    | none | some =>
      obtain ⟨rfl, rfl⟩ := Prod.mk.inj (Option.some.inj h)
      rfl
  | setUp o =>
    obtain ⟨rfl, rfl⟩ := Prod.mk.inj (Option.some.inj h)
    cases o <;> rfl
  | setOk o =>
    obtain ⟨rfl, rfl⟩ := Prod.mk.inj (Option.some.inj h)
    simp [guardStep, Guard.map]
  | success | failure | countError =>
    obtain ⟨rfl, rfl⟩ := Prod.mk.inj (Option.some.inj h)
    rfl
  | done => cases h

/-! ## A worker of a replica -/

/-- Where the worker is in `_read` or `_write`. -/
def Worker.guard : Worker → Guard Unit
  | .reading _ _ g => g.map fun _ => ()
  | .writing _ _ _ g => g.map fun _ => ()
  | _ => .done .skipped

/-- The effect of a step of a worker on the process of its replica. -/
inductive ReplicaEffect (c : Config) (p : Proc) (now : ℚ) : Guard Unit → Proc → Guard Unit → Prop
  /-- The worker neither starts a call behind the breaker nor is in one. -/
  | outside (g g' : Guard Unit) : g.rank = 0 → g'.rank = 0 →
      ReplicaEffect c p now g { p with clock := now } g'
  | start (g : Guard Unit) : g.rank = 0 → ReplicaEffect c p now g { p with clock := now } .allow
  | step (g g' : Guard Unit) (reply : Option Unit) (p' : Proc) :
      guardStep c now reply p g = some (p', g') →
      ReplicaEffect c p now g { p' with clock := now } g'

variable {ω ρ : Type*} {D : Deployment ω ρ} {W W' : World ρ} {r : ρ} {now : ℚ}

/-- The effect of a step on the processes of all replicas, before the clock of `r` is set. -/
structure Within (c : Config) (r : ρ) (now : ℚ) (W : World ρ) (g : Guard Unit) (W' : World ρ)
    (g' : Guard Unit) : Prop where
  others : ∀ r', r' ≠ r → W'.proc r' = W.proc r'
  own : ReplicaEffect c (W.proc r) now g { W'.proc r with clock := now } g'

/-- A step that leaves the processes alone. -/
theorem within_outside {c : Config} {g g' : Guard Unit} (hg : g.rank = 0) (hg' : g'.rank = 0)
    (hproc : W'.proc = W.proc) : Within c r now W g W' g' where
  others := fun _ _ => by rw [hproc]
  own := by
    rw [hproc]
    exact .outside g g' hg hg'

theorem within_start {c : Config} {g : Guard Unit} (hg : g.rank = 0) :
    Within c r now W g W .allow where
  others := fun _ _ => rfl
  own := .start g hg

theorem guard_afterRead (id : String) (cached : Option Bytes) :
    (afterRead id cached).guard.rank = 0 := by
  cases cached <;> rfl

variable [DecidableEq ρ]

/-- A step behind the breaker, in `_read` or in `_write`. -/
theorem within_guard {c : Replica} {call : RedisStore → RedisStore × Option ν} {g g' : Guard ν}
    (h : W.guard c r now call g = some (W', g')) :
    Within c.guard r now W (g.map fun _ => ()) W' (g'.map fun _ => ()) := by
  obtain ⟨p, hq, rfl⟩ := guard_eq_some.1 h
  refine ⟨fun r' hr' => by simp [hr'], ?_⟩
  simpa using ReplicaEffect.step _ _ _ _ (guardStep_map (t := (W.proc r).clock) (fun _ => ()) hq)

theorem proc_inMemory {τ : Type*} {call : MemoryStore → Option (MemoryStore × τ)} {t : τ}
    (h : W.inMemory r call = some (W', t)) : W'.proc = W.proc := by
  obtain ⟨m, -, rfl⟩ := inMemory_eq_some.1 h
  rfl

theorem within_segmentEffect {reply : Reply} {elapsed : ℚ} {t t' : Worker}
    (h : SegmentEffect D r now reply elapsed W t W' t') :
    Within (D.config r).guard r now W t.guard W' t'.guard := by
  cases h with
  | lookup => exact within_start rfl
  | read id span g g' _ hq | write id data e g g' _ hq => exact within_guard hq
  | readDone | readMemoryDone => exact within_outside rfl (guard_afterRead _ _) rfl
  | readMemory id span m m' _ hq | writeMemory id data e m m' _ hq =>
    exact within_outside rfl rfl (proc_inMemory hq)
  | fetched =>
    unfold afterFetch
    split
    · exact within_outside rfl rfl rfl
    · split
      · exact within_start rfl
      · exact within_outside rfl rfl rfl
  | lookupMemory | fetchRaised | writeDone | writeMemoryDone => exact within_outside rfl rfl rfl

theorem within_fleetEffect {t t' : Worker} (h : FleetEffect D r now W t W' t') :
    Within (D.config r).guard r now W t.guard W' t'.guard := by
  cases h with
  | call last id bypass => cases bypass <;> exact within_outside rfl rfl rfl
  | flush last reply =>
    unfold World.flush
    split <;> exact within_outside rfl rfl rfl
  | go reply elapsed heff => exact within_segmentEffect heff

/-- **What a step of a worker does to the processes of the replicas.** -/
theorem proc_fleetStep {w : ω} {t t' : Worker} {a : FleetAct}
    (h : fleetStep D w W t a = some (W', t')) :
    (W.proc (D.replica w)).clock ≤ a.now ∧
      (∀ r, r ≠ D.replica w → W'.proc r = W.proc r) ∧
      ReplicaEffect (D.config (D.replica w)).guard (W.proc (D.replica w)) a.now t.guard
        (W'.proc (D.replica w)) t'.guard := by
  obtain ⟨hclock, W₁, rfl, heff⟩ := fleetStep_effect h
  obtain ⟨hothers, hown⟩ := within_fleetEffect heff
  refine ⟨hclock, fun r hr => ?_, ?_⟩
  · simpa [World.tick, hr] using hothers r hr
  · simpa [World.tick] using hown

/-! ## The simulation -/

/-- Two workers are at the same place in a call, or in none. -/
def Same (g g' : Guard ν) : Prop := g = g' ∨ (g.rank = 0 ∧ g'.rank = 0)

/-- The workers `q` are those of replica `r`. -/
structure Follows (D : Deployment ω ρ) (r : ρ) (s : Fleet ω ρ) (q : Workers ω Unit) : Prop where
  proc : { s.shared.proc r with clock := q.shared.clock } = q.shared
  clock : q.shared.clock ≤ (s.shared.proc r).clock
  own : ∀ w, D.replica w = r → Same (s.thread w).guard (q.thread w)
  others : ∀ w, D.replica w ≠ r → (q.thread w).rank = 0

variable [DecidableEq ω]

omit [DecidableEq ρ] in
/-- A step of worker `w` of replica `r`, which `q` makes too, or has no part in. -/
theorem Follows.step {s : Fleet ω ρ} {q : Workers ω Unit} (hR : Follows D r s q) {w : ω}
    (hw : D.replica w = r) {t : Worker} {p : Proc} {g : Guard Unit}
    (hp : { W.proc r with clock := p.clock } = p) (hclock : p.clock ≤ (W.proc r).clock)
    (hg : Same t.guard g) :
    Follows D r ⟨W, Function.update s.thread w t⟩ ⟨p, Function.update q.thread w g⟩ where
  proc := hp
  clock := hclock
  own := fun v hv => by
    rcases eq_or_ne v w with rfl | hne
    · simpa using hg
    · simpa [hne] using hR.own v hv
  others := fun v hv => by
    have hne : v ≠ w := fun h => hv (h ▸ hw)
    simpa [hne] using hR.others v hv

theorem follows_step {s s' : Fleet ω ρ} {q : Workers ω Unit} {e : ω × FleetAct}
    (hR : Follows D r s q) (h : Pool.step (fleetStep D) s e = some s') :
    ∃ fs q', run (Pool.step (workerStep (D.config r).guard)) q fs = some q' ∧
      Follows D r s' q' := by
  obtain ⟨w, a⟩ := e
  obtain ⟨W', t, hstep, rfl⟩ := Pool.step_eq_some.1 h
  obtain ⟨hclock, hothers, heff⟩ := proc_fleetStep hstep
  by_cases hw : D.replica w = r
  · subst hw
    have hnow : q.shared.clock ≤ a.now := hR.clock.trans hclock
    have hsame := hR.own w rfl
    generalize hp : W'.proc (D.replica w) = p at heff
    generalize hg : t.guard = g at heff
    generalize (s.thread w).guard = old at heff hsame
    have hidle : old.rank = 0 → (q.thread w).rank = 0 := fun h0 => by
      rcases hsame with h | ⟨-, h⟩
      · exact h ▸ h0
      · exact h
    cases heff with
    | outside _ h0 h0' =>
      have hf := hR.step rfl (W := W') (t := t) (p := q.shared) (g := q.thread w)
        (by rw [hp, ← hR.proc]) (by rw [hp]; exact hnow) (Or.inr ⟨hg ▸ h0', hidle h0⟩)
      rw [Function.update_eq_self] at hf
      exact ⟨[], q, rfl, hf⟩
    | start h0 =>
      have hq : Pool.step (workerStep (D.config (D.replica w)).guard) q (w, ⟨a.now, none⟩) =
          some ⟨{ q.shared with clock := a.now }, Function.update q.thread w .allow⟩ :=
        Pool.step_eq_some.2 ⟨_, _, workerStep_start hnow none (hidle h0), rfl⟩
      refine ⟨[(w, ⟨a.now, none⟩)], _, (run_cons_eq_some _).2 ⟨_, hq, rfl⟩,
        hR.step rfl ?_ ?_ (Or.inl hg)⟩
      · rw [hp, ← hR.proc]
      · rw [hp]
    | step _ reply p' hguard =>
      have hold : q.thread w = old := by
        rcases hsame with h | ⟨h, -⟩
        · exact h.symm
        · exact absurd (rank_pos_of_guardStep hguard) (by omega)
      have hguard' := guardStep_map (t := q.shared.clock) id hguard
      rw [Guard.map_unit, Guard.map_unit, Option.map_id, id_eq, hR.proc, ← hold] at hguard'
      have hq := Pool.step_eq_some.2 ⟨_, _, workerStep_guard (w := w) hnow hguard', rfl⟩
      refine ⟨[(w, ⟨a.now, reply⟩)], _, (run_cons_eq_some _).2 ⟨_, hq, rfl⟩,
        hR.step rfl ?_ ?_ (Or.inl hg)⟩
      · rw [hp]
      · rw [hp]
  · -- a worker of another replica
    have hproc : W'.proc r = s.shared.proc r := hothers r fun h => hw h.symm
    refine ⟨[], q, rfl, ?_, ?_, fun v hv => ?_, hR.others⟩
    · exact (congrArg (fun p => { p with clock := q.shared.clock }) hproc).trans hR.proc
    · exact hR.clock.trans_eq (congrArg Proc.clock hproc).symm
    · have hne : v ≠ w := fun h => hw (h ▸ hv)
      simpa [hne] using hR.own v hv

/-- **The workers of a strict replica refine those of one process**: what they do to the breaker and
to the reported health is a run of `Pool.step (workerStep (D.config r).guard)`. -/
theorem refines_workers (hr : (D.config r).backend = .redis) {t₀ : ρ → ℚ} {s : Fleet ω ρ}
    (h : Reachable (Pool.step (fleetStep D)) (launch D t₀) s) :
    ∃ q, Reachable (Pool.step (workerStep (D.config r).guard)) (idle ω Unit (t₀ r)) q ∧
      Follows D r s q := by
  obtain ⟨es, h⟩ := h
  have hproc : procInit (D.config r).backend (t₀ r) = Proc.init (t₀ r) := by rw [hr]; rfl
  have hstart : Follows D r (launch D t₀) (idle ω Unit (t₀ r)) :=
    ⟨congrArg (fun p => { p with clock := t₀ r }) hproc, (congrArg Proc.clock hproc).ge,
      fun _ _ => Or.inl rfl, fun _ _ => rfl⟩
  obtain ⟨fs, q, hq, hR⟩ := run_simulates (fun s e s' q hR he => follows_step hR he) hstart h
  exact ⟨q, ⟨fs, hq⟩, hR⟩

/-- The breaker of every strict replica is well formed. -/
theorem wellFormed_replica (hr : (D.config r).backend = .redis) {t₀ : ρ → ℚ} {s : Fleet ω ρ}
    (h : Reachable (Pool.step (fleetStep D)) (launch D t₀) s) :
    WellFormed (D.config r).guard.breaker (s.shared.proc r).breaker := by
  obtain ⟨q, hq, hR⟩ := refines_workers hr h
  have hb : (s.shared.proc r).breaker = q.shared.breaker := by rw [← hR.proc]
  rw [hb]
  exact wellFormed_run hq

/-- While the breaker of a replica is HALF_OPEN, one of its workers is in its client call or about
to report it. -/
theorem exists_calling_of_replica_halfOpen (hr : (D.config r).backend = .redis)
    (hcb : (D.config r).guard.cbEnabled = true) {t₀ : ρ → ℚ} {s : Fleet ω ρ}
    (h : Reachable (Pool.step (fleetStep D)) (launch D t₀) s)
    (hs : (s.shared.proc r).breaker.state = .halfOpen) :
    ∃ w, D.replica w = r ∧ (s.thread w).guard.calling = true := by
  obtain ⟨q, hq, hR⟩ := refines_workers hr h
  have hb : (s.shared.proc r).breaker = q.shared.breaker := by rw [← hR.proc]
  obtain ⟨w, hw⟩ := exists_calling_of_halfOpen hcb hq (hb ▸ hs)
  have hpos : (q.thread w).rank ≠ 0 := fun h0 => by
    rcases (q.thread w).rank_pos_or_done with hpos | ⟨o, ho⟩
    · omega
    · simp [ho, Guard.calling] at hw
  by_cases hwr : D.replica w = r
  · refine ⟨w, hwr, ?_⟩
    rcases hR.own w hwr with heq | ⟨-, h0⟩
    · rw [heq, hw]
    · exact absurd h0 hpos
  · exact absurd (hR.others w hwr) hpos

end EdgeCache.Cache
