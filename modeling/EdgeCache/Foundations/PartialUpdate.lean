import EdgeCache.Foundations.Pool
import Mathlib.Data.List.Perm.Basic

/-!
# Partial updates without a lock

A record has a field `f` of type `V f` for each `f : φ`, and a gauge that shows each of them. A call
assigns the fields it is given; it may then bring every field into its range (`norm`), which reads
the field and writes it back; and it sets every gauge from its field. Each read and each write is a
step of its own (`access`), and the runs of `Pool.step S.threadStep` are the interleavings of any
number of calls.

`call` is the effect of a call that no other one interrupts (`run_alone`): it brings the fields it
is given into their ranges, leaves the others, shows all of them, and is idempotent (`call_call`). A
call that restores a record (`Restores`) can be followed from one access to the next.
-/

namespace PartialUpdate

open Transition

variable {φ : Type*} {V G : φ → Type*}

/-- The fields in the order of the program, their ranges and how they are shown. -/
structure Schema (φ : Type*) (V G : φ → Type*) where
  fields : List φ
  norm : ∀ f, V f → V f
  render : ∀ f, V f → G f
  mem_fields : ∀ f, f ∈ fields
  norm_norm : ∀ f x, norm f (norm f x) = norm f x

/-- The record and its gauges. -/
@[ext]
structure Memory (V G : φ → Type*) where
  value : ∀ f, V f
  gauge : ∀ f, G f

/-- A call is given some of the fields. One that does not clamp is given all of them, in range. -/
structure Call (S : Schema φ V G) where
  given : ∀ f, Option (V f)
  clamps : Bool
  total : clamps = false → ∀ f, ∃ x, given f = some x ∧ S.norm f x = x

/-- What a call has yet to do. -/
inductive Op (V : φ → Type*)
  | assign (f : φ) (x : V f)
  | clamp (f : φ)
  /-- Write back what a clamp has computed. -/
  | store (f : φ) (x : V f)
  | publish (f : φ)
  /-- Set a gauge to what has been read. -/
  | expose (f : φ) (x : V f)

namespace Schema

variable (S : Schema φ V G)

/-- What a call does. -/
def script (c : Call S) : List (Op V) :=
  S.fields.filterMap (fun f => (c.given f).map (Op.assign f)) ++
    (if c.clamps then S.fields.map Op.clamp else []) ++ S.fields.map Op.publish

variable [DecidableEq φ]

/-- One read or write, and what it leaves to be written. -/
def access (m : Memory V G) : Op V → Memory V G × List (Op V)
  | .assign f x => ({ m with value := Function.update m.value f x }, [])
  | .clamp f => (m, [.store f (S.norm f (m.value f))])
  | .store f x => ({ m with value := Function.update m.value f x }, [])
  | .publish f => (m, [.expose f (m.value f)])
  | .expose f x => ({ m with gauge := Function.update m.gauge f (S.render f x) }, [])

/-- The first access of what is left of a call. -/
def advance (m : Memory V G) : List (Op V) → Memory V G × List (Op V)
  | [] => (m, [])
  | o :: os => ((S.access m o).1, (S.access m o).2 ++ os)

/-- A step of a thread: it begins a call if it is not in one, and goes on otherwise. -/
def threadStep {ω : Type*} (_ : ω) (m : Memory V G) :
    List (Op V) → Option (Call S) → Option (Memory V G × List (Op V))
  | [], some c => some (S.advance m (S.script c))
  | o :: os, none => some (S.advance m (o :: os))
  | _, _ => none

/-! ## Calls one after the other -/

/-- A statement that is not interrupted. -/
def execute (m : Memory V G) : Op V → Memory V G
  | .assign f x => { m with value := Function.update m.value f x }
  | .clamp f => { m with value := Function.update m.value f (S.norm f (m.value f)) }
  | .store f x => { m with value := Function.update m.value f x }
  | .publish f => { m with gauge := Function.update m.gauge f (S.render f (m.value f)) }
  | .expose f x => { m with gauge := Function.update m.gauge f (S.render f x) }

/-- A call that is not interrupted. -/
def call (m : Memory V G) (c : Call S) : Memory V G := (S.script c).foldl S.execute m

/-- The gauges show the record. -/
def Shown (m : Memory V G) : Prop := ∀ f, m.gauge f = S.render f (m.value f)

/-- The fields are in their ranges. -/
def Normal (m : Memory V G) : Prop := ∀ f, S.norm f (m.value f) = m.value f

variable {S}

theorem value_execute_assigns (given : ∀ f, Option (V f)) (fs : List φ) (m : Memory V G) (f : φ) :
    ((fs.filterMap fun f => (given f).map (Op.assign f)).foldl S.execute m).value f =
      if f ∈ fs then (given f).getD (m.value f) else m.value f := by
  induction fs generalizing m with
  | nil => simp
  | cons g fs ih =>
    cases hg : given g with
    | none =>
      simp only [List.filterMap_cons, hg, Option.map_none, ih, List.mem_cons]
      by_cases hf : f = g
      · subst hf
        simp [hg]
      · simp [hf]
    | some x =>
      simp only [List.filterMap_cons, hg, Option.map_some, List.foldl_cons, ih, List.mem_cons,
        execute]
      by_cases hf : f = g
      · subst hf
        simp [hg]
      · simp [hf]

theorem value_execute_clamps (fs : List φ) (m : Memory V G) (f : φ) :
    ((fs.map Op.clamp).foldl S.execute m).value f =
      if f ∈ fs then S.norm f (m.value f) else m.value f := by
  induction fs generalizing m with
  | nil => simp
  | cons g fs ih =>
    simp only [List.map_cons, List.foldl_cons, ih, List.mem_cons, execute]
    by_cases hf : f = g
    · subst hf
      simp [S.norm_norm]
    · simp [hf]

theorem value_execute_publishes (fs : List φ) (m : Memory V G) :
    ((fs.map Op.publish).foldl S.execute m).value = m.value := by
  induction fs generalizing m with
  | nil => rfl
  | cons g fs ih => exact ih _

theorem gauge_execute_publishes (fs : List φ) (m : Memory V G) (f : φ) :
    ((fs.map Op.publish).foldl S.execute m).gauge f =
      if f ∈ fs then S.render f (m.value f) else m.gauge f := by
  induction fs generalizing m with
  | nil => simp
  | cons g fs ih =>
    simp only [List.map_cons, List.foldl_cons, ih, List.mem_cons, execute]
    by_cases hf : f = g
    · subst hf
      simp
    · simp [hf]

variable (S) (m : Memory V G) (c : Call S)

theorem value_call (f : φ) :
    (S.call m c).value f =
      if c.clamps then S.norm f ((c.given f).getD (m.value f)) else (c.given f).getD (m.value f) := by
  simp only [call, script, List.foldl_append, value_execute_publishes]
  cases c.clamps with
  | true => simp [value_execute_clamps, value_execute_assigns, S.mem_fields]
  | false => simp [value_execute_assigns, S.mem_fields]

/-- After a call, the gauges show the record. -/
theorem shown_call : S.Shown (S.call m c) := fun f => by
  simp only [call, script, List.foldl_append, gauge_execute_publishes, value_execute_publishes,
    S.mem_fields, if_true]

/-- A field that the call is given, brought into its range. -/
theorem value_call_of_given {f : φ} {x : V f} (h : c.given f = some x) :
    (S.call m c).value f = S.norm f x := by
  rw [value_call, h, Option.getD_some]
  split_ifs with hc
  · rfl
  · obtain ⟨y, hy, hnorm⟩ := c.total (by simpa using hc) f
    obtain rfl := Option.some.inj (h.symm.trans hy)
    exact hnorm.symm

/-- A field in its range that the call is not given. -/
theorem value_call_of_not_given {f : φ} (hm : S.norm f (m.value f) = m.value f)
    (h : c.given f = none) : (S.call m c).value f = m.value f := by
  rw [value_call, h, Option.getD_none, hm, ite_self]

theorem normal_call : S.Normal (S.call m c) := fun f => by
  cases hgiven : c.given f with
  | some x => rw [S.value_call_of_given m c hgiven, S.norm_norm]
  | none =>
    have hclamps : c.clamps = true := by
      by_contra hc
      obtain ⟨x, hx, -⟩ := c.total (by simpa using hc) f
      cases hgiven.symm.trans hx
    rw [value_call, hclamps, if_pos rfl, S.norm_norm]

/-- A call that is repeated changes nothing. -/
theorem call_call : S.call (S.call m c) c = S.call m c := by
  have hvalue : (S.call (S.call m c) c).value = (S.call m c).value := funext fun f => by
    cases hgiven : c.given f with
    | some x => rw [S.value_call_of_given _ c hgiven, S.value_call_of_given _ c hgiven]
    | none => exact S.value_call_of_not_given _ c (S.normal_call m c f) hgiven
  refine Memory.ext hvalue (funext fun f => ?_)
  rw [S.shown_call _ c f, S.shown_call m c f, hvalue]

/-! ## A call that is alone -/

section Alone

variable {S} {ω : Type*} [DecidableEq ω] {m : Memory V G} {th : ω → List (Op V)} {w : ω}

theorem step_go (m : Memory V G) (th : ω → List (Op V)) (w : ω) (o : Op V) (os : List (Op V)) :
    Pool.step S.threadStep ⟨m, Function.update th w (o :: os)⟩ (w, none) =
      some ⟨(S.access m o).1, Function.update th w ((S.access m o).2 ++ os)⟩ := by
  refine Pool.step_eq_some.2 ⟨_, _, ?_, by rw [Function.update_idem]⟩
  simp only [Function.update_self]
  rfl

theorem exists_run_rest (m : Memory V G) (th : ω → List (Op V)) (w : ω) (us : List (Op V)) :
    ∃ n, run (Pool.step S.threadStep) ⟨m, Function.update th w us⟩ (List.replicate n (w, none)) =
      some ⟨us.foldl S.execute m, Function.update th w []⟩ := by
  induction us generalizing m with
  | nil => exact ⟨0, rfl⟩
  | cons o os ih =>
    obtain ⟨n, hn⟩ := ih (S.execute m o)
    cases o with
    | assign f x | store f x | expose f x =>
      exact ⟨n + 1, (run_cons_eq_some _).2 ⟨_, step_go m th w _ os, hn⟩⟩
    | clamp f | publish f =>
      -- the read, then the write
      exact ⟨n + 2, (run_cons_eq_some _).2 ⟨_, step_go m th w _ os,
        (run_cons_eq_some _).2 ⟨_, step_go m th w _ os, hn⟩⟩⟩

/-- **`call` is what a call does that no other one interrupts**, whatever the others are at. -/
theorem run_alone (m : Memory V G) {th : ω → List (Op V)} {w : ω} (hw : th w = []) (c : Call S) :
    ∃ n, run (Pool.step S.threadStep) ⟨m, th⟩ ((w, some c) :: List.replicate n (w, none)) =
      some ⟨S.call m c, th⟩ := by
  have hbegin : Pool.step S.threadStep ⟨m, th⟩ (w, some c) =
      some ⟨(S.advance m (S.script c)).1, Function.update th w (S.advance m (S.script c)).2⟩ :=
    Pool.step_eq_some.2 ⟨_, _, by simp only [hw]; rfl, rfl⟩
  have hrest : ∃ n, run (Pool.step S.threadStep)
      ⟨(S.advance m (S.script c)).1, Function.update th w (S.advance m (S.script c)).2⟩
      (List.replicate n (w, none)) = some ⟨S.call m c, Function.update th w []⟩ := by
    simp only [call]
    cases S.script c with
    | nil => exact ⟨0, rfl⟩
    | cons o os =>
      obtain ⟨n, hn⟩ := exists_run_rest (S.execute m o) th w os
      cases o with
      | assign f x | store f x | expose f x => exact ⟨n, hn⟩
      | clamp f | publish f =>
        exact ⟨n + 1, (run_cons_eq_some _).2 ⟨_, step_go m th w _ os, hn⟩⟩
  obtain ⟨n, hn⟩ := hrest
  rw [← hw, Function.update_eq_self] at hn
  exact ⟨n, (run_cons_eq_some _).2 ⟨_, hbegin, hn⟩⟩

end Alone

/-! ## Calls that restore a record -/

section Restoring

variable {S} {d : ∀ f, V f} {m : Memory V G} {us : List (Op V)}

/-- What is left of a call writes nothing to the record but the fields of `d`. -/
def Restores (d : ∀ f, V f) (us : List (Op V)) : Prop :=
  ∀ o ∈ us, match o with
    | .assign f x => x = d f
    | .clamp _ => False
    | .store _ _ => False
    | .publish _ => True
    | .expose _ _ => True

/-- What is left of it after an access. -/
theorem Restores.advance (hus : Restores d us) (m : Memory V G) :
    Restores d (S.advance m us).2 := by
  cases us with
  | nil => exact hus
  | cons o os =>
    have hos : Restores d os := fun o ho => hus o (List.mem_cons_of_mem _ ho)
    have ho := hus o List.mem_cons_self
    cases o with
    | clamp | store => exact ho.elim
    | assign | expose => exact hos
    | publish f =>
      intro o ho
      rcases List.mem_cons.1 ho with rfl | ho
      · trivial
      · exact hos o ho

/-- A field that has been restored stays so. -/
theorem Restores.value_advance (hus : Restores d us) {f : φ} (hf : m.value f = d f) :
    (S.advance m us).1.value f = d f := by
  cases us with
  | nil => exact hf
  | cons o os =>
    have ho := hus o List.mem_cons_self
    cases o with
    | clamp | store => exact ho.elim
    | publish | expose => exact hf
    | assign g x =>
      obtain rfl : x = d g := ho
      rcases eq_or_ne f g with rfl | hg
      · simp [Schema.advance, access]
      · simpa [Schema.advance, access, hg] using hf

/-- A field that is to be restored has been restored, or still is to be. -/
theorem assign_advance {f : φ} (hf : Op.assign f (d f) ∈ us) :
    (S.advance m us).1.value f = d f ∨ Op.assign f (d f) ∈ (S.advance m us).2 := by
  cases us with
  | nil => cases hf
  | cons o os =>
    rcases List.mem_cons.1 hf with rfl | hf
    · exact Or.inl (by simp [Schema.advance, access])
    · exact Or.inr (List.mem_append_right _ hf)

omit [DecidableEq φ] in
/-- A call that is given all of `d`, in range. -/
theorem restores_script {c : Call S} (hgiven : ∀ f, c.given f = some (d f))
    (hclamps : c.clamps = false) :
    Restores d (S.script c) ∧ ∀ f, Op.assign f (d f) ∈ S.script c := by
  simp only [script, hgiven, hclamps, Bool.false_eq_true, if_false, List.append_nil]
  constructor
  · intro o ho
    rcases List.mem_append.1 ho with ho | ho
    · obtain ⟨f, -, hf⟩ := List.mem_filterMap.1 ho
      obtain rfl := Option.some.inj hf
      exact rfl
    · obtain ⟨f, -, rfl⟩ := List.mem_map.1 ho
      trivial
  · exact fun f => List.mem_append_left _ (List.mem_filterMap.2 ⟨f, S.mem_fields f, rfl⟩)

end Restoring

end Schema

end PartialUpdate
