import Mathlib.Data.List.Basic
import Mathlib.Data.List.Induction

/-!
# Objects that are called

An object has a state, and a call of it gives the next state and a reply. Its transcript is the list
of the calls that are made one after the other with the replies to them; two objects with the same
transcripts cannot be told apart by their callers.
-/

namespace Transcript

variable {σ ε ρ : Type*} (call : σ → ε → σ × ρ)

/-- The state after a list of calls. -/
def after (s : σ) (es : List ε) : σ := es.foldl (fun s e => (call s e).1) s

/-- The calls and the replies. -/
def transcript : σ → List ε → List (ε × ρ)
  | _, [] => []
  | s, e :: es => (e, (call s e).2) :: transcript (call s e).1 es

/-- The calls, and the state before each of them. -/
def states : σ → List ε → List (σ × ε)
  | _, [] => []
  | s, e :: es => (s, e) :: states (call s e).1 es

theorem after_cons (s : σ) (e : ε) (es : List ε) :
    after call s (e :: es) = after call (call s e).1 es := rfl

theorem after_concat (s : σ) (es : List ε) (e : ε) :
    after call s (es ++ [e]) = (call (after call s es) e).1 := by
  simp [after]

theorem transcript_concat (s : σ) (es : List ε) (e : ε) :
    transcript call s (es ++ [e]) = transcript call s es ++ [(e, (call (after call s es) e).2)] := by
  induction es generalizing s with
  | nil => rfl
  | cons d es ih => simp only [List.cons_append, transcript, after_cons, ih]

theorem states_concat (s : σ) (es : List ε) (e : ε) :
    states call s (es ++ [e]) = states call s es ++ [(after call s es, e)] := by
  induction es generalizing s with
  | nil => rfl
  | cons d es ih => simp only [List.cons_append, states, after_cons, ih]

@[simp] theorem length_states (s : σ) (es : List ε) : (states call s es).length = es.length := by
  induction es generalizing s with
  | nil => rfl
  | cons d es ih => simp only [states, List.length_cons, ih]

variable {call}

end Transcript
