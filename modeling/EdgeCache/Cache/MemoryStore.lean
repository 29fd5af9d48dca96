import EdgeCache.Cache.Segment
import Mathlib.Data.Rat.Defs
import Mathlib.Algebra.Order.Ring.Rat

/-!
# The in-memory store

`_InMemoryStore` of `app/cache.py`, the stand-in for Redis. Its methods take no lock: `get` looks
the key up, compares the clock with the expiry of what it found and removes the key, in three steps,
and `set` reads the clock before it assigns (`memGetStep`, `memSetStep`), and raises when the expire
time is beyond what can be added to the reading. The sum is exact here.
-/

namespace EdgeCache.Cache

/-- `_store`: the value of each key, and the time after which it has expired, if any. -/
abbrev MemoryStore := String → Option (Bytes × Option ℚ)

/-- Where a worker is in `get`. -/
inductive MemGet
  | lookup
  | check (value : Bytes) (expiresAt : ℚ)
  | pop
  | done (r : Option Bytes)
  deriving DecidableEq

/-- The next step of `get(key)`, when the clock reads `now`. -/
def memGetStep (key : String) (now : ℚ) (m : MemoryStore) : MemGet → Option (MemoryStore × MemGet)
  | .lookup =>
    match m key with
    | none => some (m, .done none)
    | some (value, none) => some (m, .done (some value))
    | some (value, some expiresAt) => some (m, .check value expiresAt)
  | .check value expiresAt => some (m, if expiresAt < now then .pop else .done (some value))
  | .pop => some (Function.update m key none, .done none)
  | .done _ => none

/-- Where a worker is in `set`. -/
inductive MemSet
  | stamp
  | assign (expiresAt : Option ℚ)
  | done (r : Except PyError Unit)
  deriving DecidableEq

/-- The next step of `set(key, value, ex)`, when the clock reads `now`. -/
def memSetStep (key : String) (value : Bytes) (ex : ℤ) (now : ℚ) (m : MemoryStore) :
    MemSet → Option (MemoryStore × MemSet)
  | .stamp =>
    if ex ≠ 0 then
      match PyFloat.ofInt ex with
      | .ok x => some (m, .assign (some (now + x)))
      | .error e => some (m, .done (.error e))
    else some (m, .assign none)
  | .assign expiresAt => some (Function.update m key (some (value, expiresAt)), .done (.ok ()))
  | .done _ => none

/-- How `set` ends, with that `ex`. -/
def memSetOutcome (ex : ℤ) : Except PyError Unit := (PyFloat.ofInt ex).map fun _ => ()

/-- `flushdb`. -/
def memFlushdb (_ : MemoryStore) : MemoryStore := fun _ => none

/-! ## What is stored -/

/-- The value that a worker in `get` has found. -/
def MemGet.found : MemGet → Option Bytes
  | .check value _ => some value
  | .done r => r
  | _ => none

variable {origin : String → Except PyError Bytes} {m m' : MemoryStore} {id : String} {now : ℚ}

theorem faithful_memGetStep {t t' : MemGet} (hm : Faithful Prod.fst origin m)
    (ht : ∀ v ∈ t.found, origin id = .ok v) (h : memGetStep (key id) now m t = some (m', t')) :
    Faithful Prod.fst origin m' ∧ ∀ v ∈ t'.found, origin id = .ok v := by
  cases t with
  | lookup =>
    simp only [memGetStep] at h
    split at h <;> obtain ⟨rfl, rfl⟩ := Prod.mk.inj (Option.some.inj h) <;> refine ⟨hm, ?_⟩
    · simp [MemGet.found]
    · next hk => simpa [MemGet.found] using hm id _ hk
    · next hk => simpa [MemGet.found] using hm id _ hk
  | check value e =>
    obtain ⟨rfl, rfl⟩ := Prod.mk.inj (Option.some.inj h)
    refine ⟨hm, ?_⟩
    split_ifs
    · simp [MemGet.found]
    · exact ht
  | pop =>
    obtain ⟨rfl, rfl⟩ := Prod.mk.inj (Option.some.inj h)
    exact ⟨hm.update (by simp), by simp [MemGet.found]⟩
  | done => cases h

/-- A `set` gives the entry its deadline, or raises. -/
theorem memSetStep_stamp {key : String} {value : Bytes} {ex : ℤ} :
    memSetStep key value ex now m .stamp = some (m,
      if PyFloat.Fits ex then .assign (if ex ≠ 0 then some (now + ex) else none)
      else .done (.error .overflowError)) := by
  by_cases hex : ex = 0
  · simp [memSetStep, hex, PyFloat.fits_zero]
  · by_cases hfits : PyFloat.Fits ex
    · simp [memSetStep, hex, hfits, PyFloat.ofInt_of_fits hfits]
    · simp [memSetStep, hex, hfits, PyFloat.ofInt_of_not_fits hfits]

theorem memSetOutcome_of_fits {ex : ℤ} (h : PyFloat.Fits ex) : memSetOutcome ex = .ok () := by
  rw [memSetOutcome, PyFloat.ofInt_of_fits h]
  rfl

theorem memSetOutcome_of_not_fits {ex : ℤ} (h : ¬ PyFloat.Fits ex) :
    memSetOutcome ex = .error .overflowError := by
  rw [memSetOutcome, PyFloat.ofInt_of_not_fits h]
  rfl

theorem memSetOutcome_eq_error {ex : ℤ} {e : PyError} :
    memSetOutcome ex = .error e ↔ e = .overflowError ∧ ¬ PyFloat.Fits ex := by
  by_cases h : PyFloat.Fits ex
  · simp [memSetOutcome_of_fits h, h]
  · simp [memSetOutcome_of_not_fits h, h, eq_comm]

theorem faithful_memSetStep {value : Bytes} {ex : ℤ} {t t' : MemSet} (hm : Faithful Prod.fst origin m)
    (hvalue : origin id = .ok value) (h : memSetStep (key id) value ex now m t = some (m', t')) :
    Faithful Prod.fst origin m' := by
  cases t with
  | stamp =>
    rw [memSetStep_stamp] at h
    obtain ⟨rfl, -⟩ := Prod.mk.inj (Option.some.inj h)
    exact hm
  | assign expiresAt =>
    obtain ⟨rfl, rfl⟩ := Prod.mk.inj (Option.some.inj h)
    exact hm.update (by simp [hvalue])
  | done => cases h

/-- What a worker in `set` knows of how it ends. -/
def MemSet.Ends (ex : ℤ) : MemSet → Prop
  | .stamp => True
  | .assign _ => PyFloat.Fits ex
  | .done r => r = memSetOutcome ex

/-- A `set` ends as `memSetOutcome` says. -/
theorem ends_memSetStep {key : String} {value : Bytes} {ex : ℤ} {t t' : MemSet} (ht : t.Ends ex)
    (h : memSetStep key value ex now m t = some (m', t')) : t'.Ends ex := by
  cases t with
  | stamp =>
    rw [memSetStep_stamp] at h
    obtain ⟨-, rfl⟩ := Prod.mk.inj (Option.some.inj h)
    by_cases hfits : PyFloat.Fits ex
    · rw [if_pos hfits]
      exact hfits
    · rw [if_neg hfits]
      exact (memSetOutcome_of_not_fits hfits).symm
  | assign expiresAt =>
    obtain ⟨-, rfl⟩ := Prod.mk.inj (Option.some.inj h)
    have hfits : PyFloat.Fits ex := ht
    exact (memSetOutcome_of_fits hfits).symm
  | done => cases h

/-! ## Every call returns -/

/-- A bound on the steps that a worker has yet to take in `get`. -/
def MemGet.rank : MemGet → ℕ
  | .lookup => 3
  | .check _ _ => 2
  | .pop => 1
  | .done _ => 0

/-- A bound on the steps that a worker has yet to take in `set`. -/
def MemSet.rank : MemSet → ℕ
  | .stamp => 2
  | .assign _ => 1
  | .done _ => 0

theorem MemGet.rank_pos_or_done (t : MemGet) : 0 < t.rank ∨ ∃ r, t = .done r := by
  cases t with
  | done r => exact Or.inr ⟨r, rfl⟩
  | _ => exact Or.inl (Nat.succ_pos _)

theorem MemSet.rank_pos_or_done (t : MemSet) : 0 < t.rank ∨ ∃ r, t = .done r := by
  cases t with
  | done r => exact Or.inr ⟨r, rfl⟩
  | _ => exact Or.inl (Nat.succ_pos _)

theorem exists_memGetStep (key : String) (now : ℚ) (m : MemoryStore) {t : MemGet}
    (ht : 0 < t.rank) : ∃ m' t', memGetStep key now m t = some (m', t') ∧ t'.rank < t.rank := by
  cases t with
  | lookup =>
    simp only [memGetStep]
    split <;> exact ⟨_, _, rfl, by simp [MemGet.rank]⟩
  | check value e =>
    refine ⟨_, _, rfl, ?_⟩
    split_ifs
    · exact Nat.one_lt_two
    · exact Nat.two_pos
  | pop => exact ⟨_, _, rfl, Nat.one_pos⟩
  | done => cases ht

theorem exists_memSetStep (key : String) (value : Bytes) (ex : ℤ) (now : ℚ) (m : MemoryStore)
    {t : MemSet} (ht : 0 < t.rank) :
    ∃ m' t', memSetStep key value ex now m t = some (m', t') ∧ t'.rank < t.rank := by
  cases t with
  | stamp =>
    refine ⟨_, _, memSetStep_stamp, ?_⟩
    split <;> simp [MemSet.rank]
  | assign => exact ⟨_, _, rfl, Nat.one_pos⟩
  | done => cases ht

end EdgeCache.Cache
