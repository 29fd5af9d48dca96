import Mathlib.Algebra.BigOperators.Group.Finset.Basic
import Mathlib.Algebra.Order.Field.Basic
import Mathlib.Data.Finset.Max
import Mathlib.Data.Fintype.BigOperators
import Mathlib.Data.Option.NAry

/-!
# Samples and instant vectors

What a rule of Prometheus computes when the labels have been summed away. A sample is a number, an
infinity, or not a number; an instant vector has one sample or none. Operators of two vectors have
no result when one of them has none, a comparison keeps the samples that satisfy it, and an alert is
raised for what an expression results in.

So a ratio can fail to exceed a bound in three ways: it is small, it is that of nothing to nothing,
or it does not exist (`gt_div`).
-/

namespace PromQL

inductive Sample (K : Type*)
  | num (x : K)
  | posInf
  | negInf
  | nan
  deriving DecidableEq

/-- An instant vector without labels. -/
abbrev InstantVector (K : Type*) := Option (Sample K)

variable {K : Type*}

/-- `vector(x)`. -/
def vector (x : K) : InstantVector K := some (.num x)

/-- `a and b`. -/
def InstantVector.and (a b : InstantVector K) : InstantVector K := if b.isSome then a else none

/-- `sum(v)`, where `v` has a sample for some of the series. -/
def sum {ι : Type*} [Fintype ι] [AddCommMonoid K] (v : ι → Option K) : InstantVector K :=
  if ∃ i, (v i).isSome then some (.num (∑ i, (v i).getD 0)) else none

/-- An alert is raised for `a and b` when it is for both. -/
theorem isSome_and {a b : InstantVector K} : (a.and b).isSome ↔ a.isSome ∧ b.isSome := by
  cases a <;> cases b <;> simp [InstantVector.and]

/-! ## Comparisons -/

section Order

variable [LinearOrder K]

/-- `s > c` of a sample. -/
def Sample.gt (c : K) : Sample K → Bool
  | .num x => c < x
  | .posInf => true
  | _ => false

/-- `s == c` of a sample. -/
def Sample.eq (c : K) : Sample K → Bool
  | .num x => x = c
  | _ => false

/-- `v > c`. -/
def InstantVector.gt (v : InstantVector K) (c : K) : InstantVector K := v.filter (Sample.gt c)

/-- `v == c`. -/
def InstantVector.eq (v : InstantVector K) (c : K) : InstantVector K := v.filter (Sample.eq c)

theorem isSome_gt {v : InstantVector K} {c : K} : (v.gt c).isSome ↔ ∃ s ∈ v, s.gt c = true := by
  cases v <;> simp [InstantVector.gt]

theorem isSome_eq {v : InstantVector K} {c : K} : (v.eq c).isSome ↔ ∃ s ∈ v, s.eq c = true := by
  cases v <;> simp [InstantVector.eq]

/-- `min(v)`. -/
def minOf {ι : Type*} [Fintype ι] (v : ι → K) : InstantVector K :=
  Option.map Sample.num (Finset.univ.image v).min

/-- The minimum is a lower bound that is attained. -/
theorem isSome_eq_minOf {ι : Type*} [Fintype ι] {v : ι → K} {c : K} :
    ((minOf v).eq c).isSome ↔ (∃ i, v i = c) ∧ ∀ i, c ≤ v i := by
  have hmin : ((minOf v).eq c).isSome ↔ (Finset.univ.image v).min = c := by
    rw [isSome_eq, minOf]
    cases (Finset.univ.image v).min with
    | top => simp [Option.map]
    | coe x => simp [Option.map, Sample.eq]
  rw [hmin]
  constructor
  · intro h
    refine ⟨by simpa using Finset.mem_of_min h, fun i => ?_⟩
    exact Finset.min_le_of_eq (Finset.mem_image_of_mem v (Finset.mem_univ i)) h
  · rintro ⟨⟨i, rfl⟩, hle⟩
    refine le_antisymm (Finset.min_le (Finset.mem_image_of_mem v (Finset.mem_univ i))) ?_
    refine Finset.le_min fun x hx => ?_
    obtain ⟨j, -, rfl⟩ := Finset.mem_image.1 hx
    exact WithTop.coe_le_coe.2 (hle j)

end Order

/-! ## Ratios -/

variable [Field K] [LinearOrder K]

/-- `a - b` of samples. -/
def Sample.sub : Sample K → Sample K → Sample K
  | .num x, .num y => .num (x - y)
  | .num _, .posInf => .negInf
  | .num _, .negInf => .posInf
  | .posInf, .num _ => .posInf
  | .posInf, .negInf => .posInf
  | .negInf, .num _ => .negInf
  | .negInf, .posInf => .negInf
  | _, _ => .nan

/-- `a / b` of samples. -/
def Sample.div : Sample K → Sample K → Sample K
  | .num x, .num y =>
    if y ≠ 0 then .num (x / y) else if x = 0 then .nan else if 0 < x then .posInf else .negInf
  | .num _, .posInf => .num 0
  | .num _, .negInf => .num 0
  | .posInf, .num y => if 0 ≤ y then .posInf else .negInf
  | .negInf, .num y => if 0 ≤ y then .negInf else .posInf
  | _, _ => .nan

/-- `a - b`. -/
def InstantVector.sub (a b : InstantVector K) : InstantVector K := Option.map₂ Sample.sub a b

/-- `a / b`. -/
def InstantVector.div (a b : InstantVector K) : InstantVector K := Option.map₂ Sample.div a b

variable [IsStrictOrderedRing K] {x y c : K}

/-- A ratio of a part to the whole exceeds a bound when the whole is not nothing, and the part
exceeds that portion of it. -/
theorem gt_div (hx : 0 ≤ x) (hxy : x ≤ y) :
    (Sample.div (.num x) (.num y)).gt c = true ↔ 0 < y ∧ c * y < x := by
  rcases (hx.trans hxy).eq_or_lt with rfl | hy
  · obtain rfl : x = 0 := le_antisymm hxy hx
    simp [Sample.div, Sample.gt]
  · simp [Sample.div, Sample.gt, hy.ne', hy, lt_div_iff₀ hy]

/-- So does what the part leaves of the whole. -/
theorem gt_sub_div (hx : 0 ≤ x) (hxy : x ≤ y) :
    (Sample.sub (.num 1) (Sample.div (.num x) (.num y))).gt c = true ↔ 0 < y ∧ c * y < y - x := by
  rcases (hx.trans hxy).eq_or_lt with rfl | hy
  · obtain rfl : x = 0 := le_antisymm hxy hx
    simp [Sample.div, Sample.sub, Sample.gt]
  · have hsub : 1 - x / y = (y - x) / y := by
      rw [sub_div, div_self hy.ne']
    simp [Sample.div, Sample.sub, Sample.gt, hy.ne', hy, hsub, lt_div_iff₀ hy]

end PromQL
