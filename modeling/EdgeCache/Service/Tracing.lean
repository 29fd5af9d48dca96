import EdgeCache.Foundations.Hex
import EdgeCache.Foundations.PyFloat

/-!
# Traces

What `app/tracing.py` gives to the handlers: the id of the trace of a request, in the form in which
it is attached to a measurement, and only if the trace is being sampled (`currentTraceId`). An id
that is given has 32 hexadecimal digits, from which the trace can be told
(`currentTraceId_eq_some`).
-/

namespace EdgeCache.Service

/-- The context of a span. A valid one has a trace id of 128 bits. -/
structure SpanContext where
  isValid : Bool
  traceId : ℕ
  sampled : Bool
  lt_of_isValid : isValid = true → traceId < 2 ^ 128

/-- `current_trace_id`, when the context of the current span is `ctx`. Without it `enabled`, there
is no tracer. -/
def currentTraceId (enabled : Bool) (ctx : SpanContext) : Option String :=
  if enabled then
    if ctx.isValid && ctx.traceId != 0 && ctx.sampled then
      some (String.ofList (Hex.format 32 ctx.traceId))
    else none
  else none

/-- The labels of the exemplar for a trace. -/
def exemplarLabels (traceId : String) : List (String × String) := [("trace_id", traceId)]

/-- The characters of the names and the values of labels, which OpenMetrics limits to 128. -/
def runes (labels : List (String × String)) : ℕ :=
  (labels.map fun l => l.1.length + l.2.length).sum

/-- `_sample_ratio`, when `float(raw)` is `ratio`, or raises a `ValueError`. -/
def sampleRatio (ratio : Option PyFloat) : PyFloat :=
  match ratio with
  | some x => PyFloat.min (.fin 1) (PyFloat.max (.fin 0) x)
  | none => .fin (1 / 10)

/-- Whatever is configured, the ratio is a probability. -/
theorem sampleRatio_mem (ratio : Option PyFloat) :
    ∃ q, sampleRatio ratio = .fin q ∧ 0 ≤ q ∧ q ≤ 1 := by
  cases ratio with
  | none => exact ⟨1 / 10, rfl, by norm_num, by norm_num⟩
  | some x => exact PyFloat.min_one_of_zero_le (PyFloat.zero_le_max x)

/-- **An id is that of a trace which is sampled**, written with 32 digits. -/
theorem currentTraceId_eq_some {enabled : Bool} {ctx : SpanContext} {id : String}
    (h : currentTraceId enabled ctx = some id) :
    ctx.sampled = true ∧ ctx.traceId ≠ 0 ∧ id.length = 32 ∧ Hex.ofChars id.toList = ctx.traceId := by
  unfold currentTraceId at h
  split_ifs at h with henabled hctx
  obtain rfl := Option.some.inj h
  simp only [Bool.and_eq_true, bne_iff_ne] at hctx
  obtain ⟨⟨hvalid, hne⟩, hsampled⟩ := hctx
  have hlt : ctx.traceId < 16 ^ 32 := (ctx.lt_of_isValid hvalid).trans_eq (by norm_num)
  refine ⟨hsampled, hne, ?_, ?_⟩
  · rw [String.length_ofList, Hex.length_format (by decide) hlt]
  · rw [String.toList_ofList, Hex.ofChars_format]

/-- So its labels are far from the limit. -/
theorem runes_exemplarLabels {enabled : Bool} {ctx : SpanContext} {id : String}
    (h : currentTraceId enabled ctx = some id) : runes (exemplarLabels id) = 40 := by
  obtain ⟨-, -, hlength, -⟩ := currentTraceId_eq_some h
  have hname : "trace_id".length = 8 := by decide
  simp [runes, exemplarLabels, hlength, hname]

end EdgeCache.Service
