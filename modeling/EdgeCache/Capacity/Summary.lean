import EdgeCache.Capacity.Forecast

/-!
# The summary and the chart

The rest of `docs/capacity/capacity_forecast.py`, for any measured inputs: the capacity of a replica
in normal operation and while Redis is down, the replicas that are needed to survive that, the
numbers of `summarise` and the points which `make_chart` marks.

`summarise` raises for flat traffic below capacity and for no other inputs
(`summarise_returns_iff`). Its dates are the first times unless the traffic declines and is below
capacity (`summarise_dates_iff`); the chart does not mark the others (`crossovers_reached`). The
number of replicas is the least that carries the peak (`replicasNeeded_isLeast`).
-/

namespace EdgeCache.Capacity

open Crossing

/-! ## Replicas -/

/-- The measured inputs. -/
structure Inputs (K : Type) where
  workersPerReplica : ℤ
  replicas : ℤ
  wHitS : K
  wMissS : K
  cpuBoundRpsPerReplica : K
  currentPeakRps : K
  monthlyGrowth : K
  addReplicaAt : K

section Field

variable {K : Type} [Field K] [LinearOrder K]

/-- The inputs as they stand in the script. -/
def measuredInputs : Inputs K where
  workersPerReplica := 40
  replicas := 2
  wHitS := 3 / 1000
  wMissS := 150 / 1000
  cpuBoundRpsPerReplica := 1500
  currentPeakRps := 800
  monthlyGrowth := 12 / 100
  addReplicaAt := 70 / 100

/-- The capacity of a replica whose requests hold a worker thread for `w` seconds. -/
def perReplica (m : Inputs K) (w : K) : Except MathError K := do
  let threadBound ← trueDiv (m.workersPerReplica : K) w
  return min threadBound m.cpuBoundRpsPerReplica

/-- `per_replica_normal`. -/
def perReplicaNormal (m : Inputs K) : Except MathError K := perReplica m m.wHitS

/-- `per_replica_degraded`. -/
def perReplicaDegraded (m : Inputs K) : Except MathError K := perReplica m m.wMissS

/-- `replicas_needed`. -/
def replicasNeeded [FloorRing K] (targetRps perReplica : K) : Except MathError ℤ := do
  let ratio ← trueDiv targetRps perReplica
  return max 1 ⌈ratio⌉

/-- That capacity, if `w` is not zero. -/
def Inputs.capacity (m : Inputs K) (w : K) : K :=
  min (m.workersPerReplica / w) m.cpuBoundRpsPerReplica

/-- The capacity of all replicas in normal operation. -/
def Inputs.normTotal (m : Inputs K) : K := m.capacity m.wHitS * m.replicas

theorem perReplica_of_ne (m : Inputs K) {w : K} (hw : w ≠ 0) :
    perReplica m w = .ok (m.capacity w) := by
  simp [perReplica, Inputs.capacity, trueDiv_of_ne _ hw, bind, Except.bind, pure, Except.pure]

theorem replicasNeeded_of_ne [FloorRing K] (target : K) {capacity : K} (h : capacity ≠ 0) :
    replicasNeeded target capacity = .ok (max 1 ⌈target / capacity⌉) := by
  simp [replicasNeeded, trueDiv_of_ne _ h, bind, Except.bind, pure, Except.pure]

section Fewest

variable [IsStrictOrderedRing K] [FloorRing K]

theorem isLeast_max_ceil (target : K) {capacity : K} (h : 0 < capacity) :
    IsLeast (reachedFrom 1 (fun n : ℤ => n * capacity) target) (max 1 ⌈target / capacity⌉) :=
  isLeast_reachedFrom fun n => by rw [Int.ceil_le, div_le_iff₀ h]

/-- **The replicas needed are the fewest that carry the load**, and at least one. -/
theorem replicasNeeded_isLeast (target : K) {capacity : K} (h : 0 < capacity) :
    ∃ n, replicasNeeded target capacity = .ok n ∧
      IsLeast (reachedFrom 1 (fun n : ℤ => n * capacity) target) n :=
  ⟨_, replicasNeeded_of_ne target h.ne', isLeast_max_ceil target h⟩

end Fewest

end Field

example : (perReplicaNormal measuredInputs : Except MathError ℚ) = .ok 1500 ∧
    (perReplicaDegraded measuredInputs >>= replicasNeeded (800 : ℚ)) = .ok 3 := by
  decide +kernel

/-! ## The summary -/

/-- The numbers of `summarise`: those that it returns, and those that it prints only. -/
structure Summary where
  normPr : ℝ
  degrPr : ℝ
  normTotal : ℝ
  degrTotal : ℝ
  addAt : ℝ
  utilisation : ℝ
  addReplicaIn : ℝ
  reachCapacityIn : ℝ
  replicasForOutage : ℤ
  degradedHeadroom : ℝ

/-- `summarise`. -/
noncomputable def summarise (m : Inputs ℝ) : Except MathError Summary := do
  let normPr ← perReplicaNormal m
  let degrPr ← perReplicaDegraded m
  let normTotal := normPr * m.replicas
  let degrTotal := degrPr * m.replicas
  let addAt := m.addReplicaAt * normTotal
  let used ← trueDiv m.currentPeakRps normTotal
  let addReplicaIn ← monthsTo addAt m.currentPeakRps m.monthlyGrowth
  let reachCapacityIn ← monthsTo normTotal m.currentPeakRps m.monthlyGrowth
  let replicasForOutage ← replicasNeeded m.currentPeakRps degrPr
  let degradedHeadroom ← trueDiv degrTotal m.currentPeakRps
  return { normPr, degrPr, normTotal, degrTotal, addAt, utilisation := used * 100, addReplicaIn,
           reachCapacityIn, replicasForOutage, degradedHeadroom }

/-- What measurements give. -/
structure Inputs.Measured (m : Inputs ℝ) : Prop where
  workers : 0 < m.workersPerReplica
  replicas : 0 < m.replicas
  wHit : 0 < m.wHitS
  wMiss : 0 < m.wMissS
  cpu : 0 < m.cpuBoundRpsPerReplica
  peak : 0 < m.currentPeakRps
  growth : -1 < m.monthlyGrowth
  addAt : m.addReplicaAt ≤ 1

theorem measuredInputs_measured : (measuredInputs : Inputs ℝ).Measured := by
  constructor <;> norm_num [measuredInputs]

/-- The summary is that of the inputs. -/
structure Summary.Of (s : Summary) (m : Inputs ℝ) : Prop where
  normTotal : s.normTotal = m.normTotal
  addAt : s.addAt = m.addReplicaAt * m.normTotal
  addReplicaIn : monthsTo s.addAt m.currentPeakRps m.monthlyGrowth = .ok s.addReplicaIn
  reachCapacityIn : monthsTo s.normTotal m.currentPeakRps m.monthlyGrowth = .ok s.reachCapacityIn
  replicasForOutage :
    IsLeast (reachedFrom 1 (fun n : ℤ => n * s.degrPr) m.currentPeakRps) s.replicasForOutage

section Summarise

variable {m : Inputs ℝ} {s : Summary}

theorem Inputs.Measured.capacity_pos (hm : m.Measured) {w : ℝ} (hw : 0 < w) :
    0 < m.capacity w :=
  lt_min (div_pos (by exact_mod_cast hm.workers) hw) hm.cpu

theorem Inputs.Measured.normTotal_pos (hm : m.Measured) : 0 < m.normTotal :=
  mul_pos (hm.capacity_pos hm.wHit) (by exact_mod_cast hm.replicas)

/-- The threshold for another replica is not above the capacity. -/
theorem Inputs.Measured.addAt_le (hm : m.Measured) : m.addReplicaAt * m.normTotal ≤ m.normTotal :=
  mul_le_of_le_one_left hm.normTotal_pos.le hm.addAt

/-- Of the steps of `summarise`, only the forecasts can raise. -/
theorem summarise_eq (hm : m.Measured) :
    summarise m = do
      let addReplicaIn ← monthsTo (m.addReplicaAt * m.normTotal) m.currentPeakRps m.monthlyGrowth
      let reachCapacityIn ← monthsTo m.normTotal m.currentPeakRps m.monthlyGrowth
      return {
        normPr := m.capacity m.wHitS
        degrPr := m.capacity m.wMissS
        normTotal := m.normTotal
        degrTotal := m.capacity m.wMissS * m.replicas
        addAt := m.addReplicaAt * m.normTotal
        utilisation := m.currentPeakRps / m.normTotal * 100
        addReplicaIn
        reachCapacityIn
        replicasForOutage := max 1 ⌈m.currentPeakRps / m.capacity m.wMissS⌉
        degradedHeadroom := m.capacity m.wMissS * m.replicas / m.currentPeakRps } := by
  have hused : trueDiv m.currentPeakRps (m.capacity m.wHitS * m.replicas) =
      .ok (m.currentPeakRps / m.normTotal) := trueDiv_of_ne _ hm.normTotal_pos.ne'
  unfold summarise perReplicaNormal perReplicaDegraded
  rw [perReplica_of_ne m hm.wHit.ne', perReplica_of_ne m hm.wMiss.ne']
  simp only [replicasNeeded_of_ne _ (hm.capacity_pos hm.wMiss).ne', hused,
    trueDiv_of_ne _ hm.peak.ne', bind, Except.bind]
  rfl

/-- **What `summarise` returns is the summary of its inputs.** -/
theorem of_summarise (hm : m.Measured) (h : summarise m = .ok s) : s.Of m := by
  rw [summarise_eq hm] at h
  obtain ⟨a, ha, h⟩ := bind_eq_ok.1 h
  obtain ⟨b, hb, h⟩ := bind_eq_ok.1 h
  obtain rfl := Except.ok.inj h
  exact ⟨rfl, rfl, ha, hb, isLeast_max_ceil _ (hm.capacity_pos hm.wMiss)⟩

/-- The threshold for another replica is not above the capacity. -/
theorem Summary.Of.addAt_le (h : s.Of m) (hm : m.Measured) : s.addAt ≤ s.normTotal := by
  rw [h.addAt, h.normTotal]
  exact hm.addAt_le

/-- For other traffic, all dates can be computed. -/
theorem exists_summarise (hm : m.Measured)
    (h : m.monthlyGrowth ≠ 0 ∨ m.normTotal ≤ m.currentPeakRps) : ∃ s, summarise m = .ok s := by
  have hmonths : ∀ threshold ≤ m.normTotal,
      ∃ t, monthsTo threshold m.currentPeakRps m.monthlyGrowth = .ok t := by
    intro threshold hle
    rcases le_or_gt threshold m.currentPeakRps with hpeak | hpeak
    · exact ⟨0, monthsTo_of_le _ hpeak⟩
    · have hg := h.resolve_right (hpeak.trans_le hle).not_ge
      obtain ⟨t, ht, -⟩ := exists_monthsTo hm.peak hpeak hm.growth hg
      exact ⟨t, ht⟩
  obtain ⟨a, ha⟩ := hmonths _ hm.addAt_le
  obtain ⟨b, hb⟩ := hmonths _ le_rfl
  rw [summarise_eq hm]
  exact ⟨_, bind_eq_ok.2 ⟨a, ha, bind_eq_ok.2 ⟨b, hb, rfl⟩⟩⟩

/-- **`summarise` raises exactly for flat traffic below capacity**, over exact numbers. With floats,
a growth so small that `1 + growth` rounds to 1 is flat, too. -/
theorem summarise_returns_iff (hm : m.Measured) :
    (∃ s, summarise m = .ok s) ↔ m.monthlyGrowth ≠ 0 ∨ m.normTotal ≤ m.currentPeakRps := by
  refine ⟨?_, exists_summarise hm⟩
  rintro ⟨s, hs⟩
  by_contra hnot
  obtain ⟨hg, hlt⟩ := not_or.1 hnot
  have hOf := of_summarise hm hs
  have hreach := hOf.reachCapacityIn
  rw [hOf.normTotal, not_not.1 hg, monthsTo_flat hm.peak (not_le.1 hlt)] at hreach
  cases hreach

/-- The measurements with flat traffic. -/
noncomputable def flatInputs : Inputs ℝ := { measuredInputs with monthlyGrowth := 0 }

/-- With it there is no summary. -/
theorem summarise_returns_iff_flat : ¬ ∃ s, summarise flatInputs = .ok s := by
  have hm : flatInputs.Measured := by constructor <;> norm_num [flatInputs, measuredInputs]
  rw [summarise_returns_iff hm]
  norm_num [flatInputs, measuredInputs, Inputs.normTotal, Inputs.capacity]

/-- The measured inputs have a summary. -/
theorem exists_summarise_measured : ∃ s, summarise measuredInputs = .ok s :=
  exists_summarise measuredInputs_measured (Or.inl (by norm_num [measuredInputs]))

/-- **The dates of the summary are the first times exactly when the traffic grows or is at capacity
already**, and then the one for another replica is not the later one. -/
theorem summarise_dates_iff (hm : m.Measured) (h : summarise m = .ok s) :
    (IsLeast (reachedAt s.addAt m.currentPeakRps m.monthlyGrowth) s.addReplicaIn ∧
        IsLeast (reachedAt s.normTotal m.currentPeakRps m.monthlyGrowth) s.reachCapacityIn ∧
        s.addReplicaIn ≤ s.reachCapacityIn) ↔
      s.normTotal ≤ m.currentPeakRps ∨ 0 < m.monthlyGrowth := by
  have hOf := of_summarise hm h
  constructor
  · rintro ⟨-, hreach, -⟩
    by_contra hnot
    obtain ⟨hlt, hg⟩ := not_or.1 hnot
    exact not_reached hm.peak (not_le.1 hlt) hm.growth (not_lt.1 hg) ⟨_, hreach.1⟩
  · intro hdates
    have hadd : s.addAt ≤ m.currentPeakRps ∨ 0 < m.monthlyGrowth :=
      hdates.imp_left (hOf.addAt_le hm).trans
    have hfirst := isLeast_of_monthsTo hm.peak hadd hOf.addReplicaIn
    have hlast := isLeast_of_monthsTo hm.peak hdates hOf.reachCapacityIn
    exact ⟨hfirst, hlast, first_le_first (hOf.addAt_le hm) hfirst hlast⟩

/-- With the measured growth, the dates are right. -/
theorem summarise_dates_iff_measured : ∃ s, summarise measuredInputs = .ok s ∧
    s.addReplicaIn ≤ s.reachCapacityIn := by
  obtain ⟨s, hs⟩ := exists_summarise_measured
  have hgrowth : 0 < (measuredInputs : Inputs ℝ).monthlyGrowth := by norm_num [measuredInputs]
  obtain ⟨-, -, hle⟩ := (summarise_dates_iff measuredInputs_measured hs).2 (Or.inr hgrowth)
  exact ⟨s, hs, hle⟩

end Summarise

/-! ## The chart -/

/-- The points that `make_chart` marks: the months and the threshold. -/
noncomputable def crossovers (m : Inputs ℝ) (s : Summary) : Except MathError (List (ℝ × ℝ)) := do
  let addReplica ← monthsTo s.addAt m.currentPeakRps m.monthlyGrowth
  let atCapacity ← monthsTo s.normTotal m.currentPeakRps m.monthlyGrowth
  return [(addReplica, s.addAt), (atCapacity, s.normTotal)].filter fun p => 0 < p.1 ∧ p.1 < 18

/-- **A marked point lies where the traffic reaches its threshold first**, whatever the trend. -/
theorem crossovers_reached {m : Inputs ℝ} {s : Summary} (hm : m.Measured) (h : s.Of m) :
    ∃ ps, crossovers m s = .ok ps ∧ ∀ p ∈ ps,
      traffic m.currentPeakRps m.monthlyGrowth p.1 = p.2 ∧
        IsLeast (reachedAt p.2 m.currentPeakRps m.monthlyGrowth) p.1 := by
  refine ⟨_, bind_eq_ok.2 ⟨_, h.addReplicaIn, bind_eq_ok.2 ⟨_, h.reachCapacityIn, rfl⟩⟩,
    fun p hp => ?_⟩
  obtain ⟨hmem, hp⟩ := List.mem_filter.1 hp
  have hpos : 0 < p.1 := (of_decide_eq_true hp).1
  rcases List.mem_pair.1 hmem with rfl | rfl
  · exact isLeast_of_monthsTo_pos hm.peak hm.growth h.addReplicaIn hpos
  · exact isLeast_of_monthsTo_pos hm.peak hm.growth h.reachCapacityIn hpos

/-- The measured summary has a chart. -/
theorem crossovers_reached_measured : ∃ s ps, summarise measuredInputs = .ok s ∧
    crossovers measuredInputs s = .ok ps ∧ ∀ p ∈ ps, traffic 800 (12 / 100) p.1 = p.2 := by
  obtain ⟨s, hs⟩ := exists_summarise_measured
  obtain ⟨ps, hps, hreached⟩ :=
    crossovers_reached measuredInputs_measured (of_summarise measuredInputs_measured hs)
  exact ⟨s, ps, hs, hps, fun p hp => (hreached p hp).1⟩

end EdgeCache.Capacity
