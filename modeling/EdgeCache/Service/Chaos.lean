import EdgeCache.Foundations.PyFloat

/-!
# Injected faults

The chaos state of `app/chaos.py` and the two functions with which `get_segment` consults it. Each
of them reads an attribute of the shared state twice, and a concurrent update may come between the
two reads: `ChaosRead` names the places where the state is read, and a request is given the state
found at each of them.
-/

namespace EdgeCache.Service

/-- `ChaosState`, with its defaults. -/
structure ChaosState where
  latencySeconds : PyFloat := .fin 0
  errorRate : PyFloat := .fin 0
  cacheBypass : Bool := false
  deriving DecidableEq, Repr

/-- Where a request reads the state. -/
inductive ChaosRead
  | latencyTest
  | latencySleep
  | rateTest
  | rateDraw
  | bypass
  deriving DecidableEq, Repr

/-- `apply_latency`. -/
def applyLatency (sleepLimit : ℚ) (chaos : ChaosRead → ChaosState) : Except PyError Unit :=
  if PyFloat.lt (.fin 0) (chaos .latencyTest).latencySeconds then
    PyFloat.timeSleep sleepLimit (chaos .latencySleep).latencySeconds
  else .ok ()

/-- `should_error`, when `random.random()` returns `draw`. -/
def shouldError (draw : ℚ) (chaos : ChaosRead → ChaosState) : Bool :=
  if PyFloat.le (chaos .rateTest).errorRate (.fin 0) then false
  else PyFloat.lt (.fin draw) (chaos .rateDraw).errorRate

end EdgeCache.Service
