import EdgeCache.Foundations.PartialUpdate

/-!
# Interleaved partial updates

Two things are proved of the interleavings of any number of calls of `PartialUpdate.Schema`.

* Every field is in its range when no call is in progress (`normal_of_quiescent`): a raw value is
  followed by a clamp of its field, and what a clamp writes is in range (`Sound`).
* When no call is in progress, the record and the gauges are as if the calls had been made one after
  the other in the order in which they began (`eq_calls_of_undisturbed`), in the runs in which calls
  that are given the same field do not begin while one of them has yet to assign it, and in which what
  is written back or shown has not changed since it was read, unless another call will make that good
  (`Undisturbed`). The record follows the calls begun so far (`Follows`): each field, brought into its
  range, is what they make it, or about to be assigned that.
-/

namespace PartialUpdate

open Transition

variable {φ : Type*} {V G : φ → Type*}

namespace Op

def Assigns (f : φ) : Op V → Prop
  | assign g _ => g = f
  | _ => False

def Clamps (f : φ) : Op V → Prop
  | clamp g => g = f
  | store g _ => g = f
  | _ => False

def Publishes (f : φ) : Op V → Prop
  | publish g => g = f
  | expose g _ => g = f
  | _ => False

end Op

namespace Schema

variable {S : Schema φ V G}

/-! ## What is pending -/

section Pending

variable {ω : Type*}

/-- Some thread is still to do such an operation. -/
def Pending (P : Op V → Prop) (th : ω → List (Op V)) : Prop := ∃ w, ∃ o ∈ th w, P o

/-- A thread other than `w` is. -/
def Elsewhere (P : Op V → Prop) (th : ω → List (Op V)) (w : ω) : Prop :=
  ∃ v, v ≠ w ∧ ∃ o ∈ th v, P o

theorem not_pending {P : Op V → Prop} {th : ω → List (Op V)} (h : ∀ w, th w = []) :
    ¬ Pending P th := by
  rintro ⟨w, o, ho, -⟩
  rw [h w] at ho
  cases ho

section Update

variable [DecidableEq ω] {P : Op V → Prop} {th : ω → List (Op V)} {w : ω}
  {o : Op V} {us os : List (Op V)}

theorem pending_update (h : ∃ o ∈ us, P o) : Pending P (Function.update th w us) :=
  ⟨w, by rwa [Function.update_self]⟩

theorem Elsewhere.pending (h : Elsewhere P th w) : Pending P (Function.update th w us) := by
  obtain ⟨v, hv, ho⟩ := h
  exact ⟨v, by rwa [Function.update_of_ne hv]⟩

/-- A thread that is in no call has nothing pending. -/
theorem Pending.begin (h : Pending P th) (hw : th w = []) :
    Pending P (Function.update th w us) := by
  obtain ⟨v, o, ho, hP⟩ := h
  have hv : v ≠ w := fun hvw => by rw [hvw, hw] at ho; cases ho
  exact Elsewhere.pending ⟨v, hv, o, ho, hP⟩

/-- What is pending stays so when the operation that is done was not meant, or leaves such a one. -/
theorem Pending.advance {cs : List (Op V)} (h : Pending P (Function.update th w (o :: os)))
    (ho : P o → ∃ o' ∈ cs, P o') : Pending P (Function.update th w (cs ++ os)) := by
  obtain ⟨v, o', ho', hP⟩ := h
  rcases eq_or_ne v w with rfl | hv
  · rw [Function.update_self] at ho'
    refine pending_update ?_
    rcases List.mem_cons.1 ho' with rfl | hmem
    · obtain ⟨o'', ho'', hP''⟩ := ho hP
      exact ⟨o'', List.mem_append_left _ ho'', hP''⟩
    · exact ⟨o', List.mem_append_right _ hmem, hP⟩
  · rw [Function.update_of_ne hv] at ho'
    exact Elsewhere.pending ⟨v, hv, o', ho', hP⟩

/-- An operation that is not awaited has been carried out. -/
theorem Pending.tail (h : Pending P (Function.update th w (o :: os))) (ho : ¬ P o) :
    Pending P (Function.update th w os) := by
  have hnone : P o → ∃ o' ∈ ([] : List (Op V)), P o' := fun hP => absurd hP ho
  exact h.advance hnone

end Update

end Pending

/-! ## Scripts in progress -/

variable (S) in
/-- After a value has been assigned to a field, the field is clamped if need be, and shown. -/
def Followed : Op V → List (Op V) → Prop
  | .assign f x, os => ((∃ o ∈ os, o.Clamps f) ∨ S.norm f x = x) ∧ ∃ o ∈ os, o.Publishes f
  | .clamp f, os => ∃ o ∈ os, o.Publishes f
  | .store f x, os => S.norm f x = x ∧ ∃ o ∈ os, o.Publishes f
  | .publish _, _ => True
  | .expose _ _, _ => True

variable (S) in
/-- That goes for every operation of the list. -/
def Tidy : List (Op V) → Prop
  | [] => True
  | o :: os => S.Followed o os ∧ Tidy os

theorem Followed.append {o : Op V} {os : List (Op V)} (h : S.Followed o os) (as : List (Op V)) :
    S.Followed o (as ++ os) := by
  have hmem : ∀ {P : Op V → Prop}, (∃ o ∈ os, P o) → ∃ o ∈ as ++ os, P o :=
    fun ⟨o, ho, hP⟩ => ⟨o, List.mem_append_right as ho, hP⟩
  cases o with
  | assign f x => exact ⟨h.1.imp_left hmem, hmem h.2⟩
  | clamp f => exact hmem h
  | store f x => exact ⟨h.1, hmem h.2⟩
  | publish | expose => trivial

theorem Tidy.append {as bs : List (Op V)} (has : ∀ o ∈ as, S.Followed o bs) (hbs : S.Tidy bs) :
    S.Tidy (as ++ bs) := by
  induction as with
  | nil => exact hbs
  | cons a as ih =>
    obtain ⟨ha, has⟩ := List.forall_mem_cons.1 has
    exact ⟨ha.append as, ih has⟩

theorem mem_script {c : Call S} {f : φ} {x : V f} :
    Op.assign f x ∈ S.script c ↔ c.given f = some x := by
  have hclamps : Op.assign f x ∉ (if c.clamps then S.fields.map Op.clamp else []) := by
    split_ifs <;> simp
  simp only [script, List.append_assoc, List.mem_append, List.mem_filterMap, Option.map_eq_some_iff,
    hclamps, List.mem_map, reduceCtorEq, and_false, exists_false, or_false]
  constructor
  · rintro ⟨g, -, y, hy, heq⟩
    cases heq
    exact hy
  · intro h
    exact ⟨f, S.mem_fields f, x, h, rfl⟩

theorem tidy_script (c : Call S) : S.Tidy (S.script c) := by
  have hshown : ∀ f, ∃ o ∈ S.fields.map (Op.publish (V := V)), o.Publishes f := fun f =>
    ⟨_, List.mem_map_of_mem (S.mem_fields f), rfl⟩
  have hpublishes : S.Tidy (S.fields.map Op.publish) := by
    have hfollowed : ∀ o ∈ S.fields.map Op.publish, S.Followed o [] := fun o ho => by
      obtain ⟨f, -, rfl⟩ := List.mem_map.1 ho
      trivial
    have happend : S.Tidy (S.fields.map Op.publish ++ []) := Tidy.append hfollowed trivial
    rwa [List.append_nil] at happend
  rw [script, List.append_assoc]
  refine Tidy.append (fun o ho => ?_) (Tidy.append (fun o ho => ?_) hpublishes)
  · obtain ⟨f, -, hf⟩ := List.mem_filterMap.1 ho
    obtain ⟨x, hx, rfl⟩ := Option.map_eq_some_iff.1 hf
    obtain ⟨o, ho, hP⟩ := hshown f
    refine ⟨?_, o, List.mem_append_right _ ho, hP⟩
    cases hc : c.clamps with
    | true => exact Or.inl ⟨.clamp f, by simp [S.mem_fields], rfl⟩
    | false =>
      obtain ⟨y, hy, hnorm⟩ := c.total hc f
      obtain rfl := Option.some.inj (hx.symm.trans hy)
      exact Or.inr hnorm
  · split_ifs at ho
    · obtain ⟨f, -, rfl⟩ := List.mem_map.1 ho
      exact hshown f
    · cases ho

theorem Tidy.advance [DecidableEq φ] {us : List (Op V)} (h : S.Tidy us) (m : Memory V G) :
    S.Tidy (S.advance m us).2 := by
  cases us with
  | nil => trivial
  | cons o os =>
    obtain ⟨ho, hos⟩ := h
    cases o with
    | assign | store | expose => exact hos
    | clamp f => exact ⟨⟨S.norm_norm f _, ho⟩, hos⟩
    | publish f => exact ⟨trivial, hos⟩

variable {ω : Type*}

/-- A record that no call is at work on. -/
def start (ω : Type*) (m : Memory V G) : Pool ω (Memory V G) (List (Op V)) := ⟨m, fun _ => []⟩

/-- No call is in progress. -/
def Quiescent (s : Pool ω (Memory V G) (List (Op V))) : Prop := ∀ w, s.thread w = []

/-- The state after the first access of thread `w`, when it has yet to do `us`. -/
def advanced [DecidableEq φ] [DecidableEq ω] (S : Schema φ V G) (m : Memory V G)
    (th : ω → List (Op V)) (w : ω) (us : List (Op V)) : Pool ω (Memory V G) (List (Op V)) :=
  ⟨(S.advance m us).1, Function.update th w (S.advance m us).2⟩

/-- **What a step can do**: a thread that is in no call takes the first step of one, or a thread
that is in a call goes on. -/
theorem step_cases [DecidableEq φ] [DecidableEq ω] {s s' : Pool ω (Memory V G) (List (Op V))} {w : ω}
    {a : Option (Call S)} (h : Pool.step S.threadStep s (w, a) = some s') :
    (∃ c, a = some c ∧ s.thread w = [] ∧ s' = advanced S s.shared s.thread w (S.script c)) ∨
      (a = none ∧ s.thread w ≠ [] ∧ s' = advanced S s.shared s.thread w (s.thread w)) := by
  obtain ⟨m, us, hstep, rfl⟩ := Pool.step_eq_some.1 h
  cases hw : s.thread w with
  | nil =>
    cases a with
    | none => rw [hw] at hstep; cases hstep
    | some c =>
      rw [hw] at hstep
      obtain ⟨rfl, rfl⟩ := Prod.mk.inj (Option.some.inj hstep)
      exact Or.inl ⟨c, rfl, rfl, rfl⟩
  | cons o os =>
    cases a with
    | some c => rw [hw] at hstep; cases hstep
    | none =>
      rw [hw] at hstep
      obtain ⟨rfl, rfl⟩ := Prod.mk.inj (Option.some.inj hstep)
      exact Or.inr ⟨rfl, List.cons_ne_nil _ _, rfl⟩

/-! ## The ranges -/

/-- Every field is in its range, or about to be clamped. -/
structure Sound (S : Schema φ V G) (s : Pool ω (Memory V G) (List (Op V))) : Prop where
  tidy : ∀ w, S.Tidy (s.thread w)
  normal : ∀ f, S.norm f (s.shared.value f) = s.shared.value f ∨ Pending (Op.Clamps f) s.thread

theorem Sound.start {m : Memory V G} (hm : S.Normal m) : Sound S (start ω m) :=
  ⟨fun _ => trivial, fun f => Or.inl (hm f)⟩

theorem Sound.normal_of_quiescent {s : Pool ω (Memory V G) (List (Op V))} (h : Sound S s)
    (hq : Quiescent s) : S.Normal s.shared :=
  fun f => (h.normal f).resolve_right (not_pending hq)

section Steps

variable [DecidableEq ω] {m : Memory V G} {th : ω → List (Op V)} {w : ω} {us : List (Op V)}

/-- To begin a call, before its first access, makes nothing worse. -/
theorem Sound.begin (h : Sound S ⟨m, th⟩) (hw : th w = []) (hus : S.Tidy us) :
    Sound S ⟨m, Function.update th w us⟩ where
  tidy := fun v => by
    rcases eq_or_ne v w with rfl | hv
    · simpa using hus
    · simpa [hv] using h.tidy v
  normal := fun f => (h.normal f).imp_right fun hp => hp.begin hw

variable [DecidableEq φ]

theorem Sound.advance (h : Sound S ⟨m, Function.update th w us⟩) : Sound S (advanced S m th w us) := by
  have htidy : S.Tidy us := by simpa using h.tidy w
  refine ⟨fun v => ?_, fun f => ?_⟩
  · rcases eq_or_ne v w with rfl | hv
    · simpa [advanced] using htidy.advance m
    · simpa [advanced, hv] using h.tidy v
  have hf := h.normal f
  cases us with
  | nil => exact hf
  | cons o os =>
    cases o with
    | assign g x =>
      rcases eq_or_ne f g with rfl | hne
      · rcases htidy.1.1 with hclamps | hnorm
        · exact Or.inr (pending_update hclamps)
        · refine Or.inl ?_
          simpa [advanced, Schema.advance, access] using hnorm
      · refine hf.imp (fun hnorm => ?_) fun hp => hp.tail id
        simpa [advanced, Schema.advance, access, hne] using hnorm
    | clamp g =>
      exact hf.imp_right fun hp => hp.advance fun ho => ⟨_, List.mem_singleton_self _, ho⟩
    | store g x =>
      rcases eq_or_ne f g with rfl | hne
      · refine Or.inl ?_
        simpa [advanced, Schema.advance, access] using htidy.1.1
      · refine hf.imp (fun hnorm => ?_) fun hp => hp.tail fun ho => hne ho.symm
        simpa [advanced, Schema.advance, access, hne] using hnorm
    | publish g => exact hf.imp_right fun hp => hp.advance fun ho => ho.elim
    | expose g x => exact hf.imp_right fun hp => hp.tail id

theorem Sound.step {s s' : Pool ω (Memory V G) (List (Op V))} {e : ω × Option (Call S)}
    (h : Sound S s) (he : Pool.step S.threadStep s e = some s') : Sound S s' := by
  obtain ⟨w, a⟩ := e
  rcases step_cases he with ⟨c, -, hw, rfl⟩ | ⟨-, -, rfl⟩
  · exact (h.begin hw (tidy_script c)).advance
  · refine Sound.advance ?_
    rwa [Function.update_eq_self]

/-- **Every field is in its range whenever no call is in progress**, whatever the interleaving. -/
theorem normal_of_quiescent {m : Memory V G} (hm : S.Normal m)
    {s : Pool ω (Memory V G) (List (Op V))}
    (h : Reachable (Pool.step S.threadStep) (Schema.start ω m) s) (hq : Quiescent s) :
    S.Normal s.shared :=
  (h.invariant (fun _ _ _ hs he => hs.step he) (Sound.start hm)).normal_of_quiescent hq

/-! ## The order of the calls -/

/-- What is written has not changed since it was read, or another call is to make that good: to
assign the field, or to show it. -/
def Fresh (S : Schema φ V G) (m : Memory V G) (th : ω → List (Op V)) (w : ω) : Op V → Prop
  | .store f x => x = S.norm f (m.value f) ∨ Elsewhere (Op.Assigns f) th w
  | .expose f x => x = m.value f ∨ Elsewhere (Op.Publishes f) th w
  | _ => True

omit [DecidableEq ω] [DecidableEq φ] in
/-- A script writes nothing that it has not read yet. -/
theorem fresh_of_mem_script {c : Call S} {o : Op V} (ho : o ∈ S.script c) : Fresh S m th w o := by
  rw [script, List.append_assoc, List.mem_append, List.mem_append] at ho
  rcases ho with ho | ho | ho
  · obtain ⟨f, -, hf⟩ := List.mem_filterMap.1 ho
    obtain ⟨x, -, rfl⟩ := Option.map_eq_some_iff.1 hf
    trivial
  · split_ifs at ho
    · obtain ⟨f, -, rfl⟩ := List.mem_map.1 ho
      trivial
    · cases ho
  · obtain ⟨f, -, rfl⟩ := List.mem_map.1 ho
    trivial

/-- It assigns no field that the call is given. -/
def Avoids (c : Call S) : Op V → Prop
  | .assign f _ => c.given f = none
  | _ => True

/-- A call begins when no other one has yet to assign a field that it is given, and what a call in
progress writes is fresh. -/
def Undisturbed (S : Schema φ V G) (s : Pool ω (Memory V G) (List (Op V)))
    (e : ω × Option (Call S)) (_ : Pool ω (Memory V G) (List (Op V))) : Prop :=
  match e.2 with
  | some c => ∀ v, v ≠ e.1 → ∀ o ∈ s.thread v, Avoids c o
  | none => ∀ o ∈ (s.thread e.1).head?, Fresh S s.shared s.thread e.1 o

section Decidable

variable [Fintype ω]

instance (f : φ) : DecidablePred (Op.Assigns (V := V) f)
  | .assign g _ => inferInstanceAs (Decidable (g = f))
  | .clamp _ | .store _ _ | .publish _ | .expose _ _ => inferInstanceAs (Decidable False)

instance (f : φ) : DecidablePred (Op.Publishes (V := V) f)
  | .publish g => inferInstanceAs (Decidable (g = f))
  | .expose g _ => inferInstanceAs (Decidable (g = f))
  | .assign _ _ | .clamp _ | .store _ _ => inferInstanceAs (Decidable False)

instance (c : Call S) : DecidablePred (Avoids c)
  | .assign f _ => inferInstanceAs (Decidable (c.given f = none))
  | .clamp _ | .store _ _ | .publish _ | .expose _ _ => inferInstanceAs (Decidable True)

instance (P : Op V → Prop) [DecidablePred P] (th : ω → List (Op V)) (w : ω) :
    Decidable (Elsewhere P th w) :=
  inferInstanceAs (Decidable (∃ v, v ≠ w ∧ ∃ o ∈ th v, P o))

variable [∀ f, DecidableEq (V f)]

instance (m : Memory V G) (th : ω → List (Op V)) (w : ω) : DecidablePred (Fresh S m th w)
  | .store f x => inferInstanceAs (Decidable (x = S.norm f (m.value f) ∨ Elsewhere _ th w))
  | .expose f x => inferInstanceAs (Decidable (x = m.value f ∨ Elsewhere _ th w))
  | .assign _ _ | .clamp _ | .publish _ => inferInstanceAs (Decidable True)

instance (s s' : Pool ω (Memory V G) (List (Op V))) :
    ∀ e : ω × Option (Call S), Decidable (Undisturbed S s e s')
  | (w, some c) => inferInstanceAs (Decidable (∀ v, v ≠ w → ∀ o ∈ s.thread v, Avoids c o))
  | (w, none) =>
    inferInstanceAs (Decidable (∀ o ∈ (s.thread w).head?, Fresh S s.shared s.thread w o))

end Decidable

/-- The record follows `g`, the result of the calls begun so far. -/
structure Follows (S : Schema φ V G) (g : Memory V G)
    (s : Pool ω (Memory V G) (List (Op V))) : Prop where
  sound : Sound S s
  normal : S.Normal g
  shown : S.Shown g
  assigned : ∀ w f y, Op.assign f y ∈ s.thread w → g.value f = S.norm f y
  value : ∀ f, S.norm f (s.shared.value f) = g.value f ∨ Pending (Op.Assigns f) s.thread
  gauge : ∀ f, s.shared.gauge f = S.render f (s.shared.value f) ∨
    Pending (Op.Publishes f) s.thread

omit [DecidableEq ω] [DecidableEq φ] in
theorem Follows.start {m : Memory V G} (hm : S.Normal m) (hshown : S.Shown m) :
    Follows S m (Schema.start ω m) where
  sound := Sound.start hm
  normal := hm
  shown := hshown
  assigned := nofun
  value := fun f => Or.inl (hm f)
  gauge := fun f => Or.inl (hshown f)

omit [DecidableEq ω] [DecidableEq φ] in
theorem Follows.eq_of_quiescent {g : Memory V G} {s : Pool ω (Memory V G) (List (Op V))}
    (h : Follows S g s) (hq : Quiescent s) : s.shared = g := by
  have hvalue : s.shared.value = g.value := funext fun f => by
    rw [← (h.value f).resolve_right (not_pending hq), h.sound.normal_of_quiescent hq f]
  refine Memory.ext hvalue (funext fun f => ?_)
  rw [(h.gauge f).resolve_right (not_pending hq), h.shown f, hvalue]

variable {g : Memory V G}

theorem Follows.begin (h : Follows S g ⟨m, th⟩) (hw : th w = []) {c : Call S}
    (hc : ∀ v, v ≠ w → ∀ o ∈ th v, Avoids c o) :
    Follows S (S.call g c) ⟨m, Function.update th w (S.script c)⟩ where
  sound := h.sound.begin hw (tidy_script c)
  normal := S.normal_call g c
  shown := S.shown_call g c
  assigned := fun v f y hmem => by
    rcases eq_or_ne v w with rfl | hv
    · simp only [Function.update_self] at hmem
      exact S.value_call_of_given g c (mem_script.1 hmem)
    · simp only [Function.update_of_ne hv] at hmem
      rw [S.value_call_of_not_given g c (h.normal f) (hc v hv _ hmem)]
      exact h.assigned v f y hmem
  value := fun f => by
    cases hgiven : c.given f with
    | some x => exact Or.inr (pending_update ⟨_, mem_script.2 hgiven, rfl⟩)
    | none =>
      rw [S.value_call_of_not_given g c (h.normal f) hgiven]
      exact (h.value f).imp_right fun hp => hp.begin hw
  gauge := fun f => (h.gauge f).imp_right fun hp => hp.begin hw

omit [DecidableEq ω] in
/-- An access leaves no assignment behind. -/
theorem mem_advance {f : φ} {y : V f} (h : Op.assign f y ∈ (S.advance m us).2) :
    Op.assign f y ∈ us := by
  cases us with
  | nil => exact h
  | cons o os =>
    cases o <;> simp_all [Schema.advance, access]

omit [DecidableEq φ] in
theorem Elsewhere.of_update {P : Op V → Prop} (h : Elsewhere P (Function.update th w us) w) :
    Elsewhere P th w := by
  obtain ⟨v, hv, o, ho, hP⟩ := h
  exact ⟨v, hv, o, by rwa [Function.update_of_ne hv] at ho, hP⟩

section Advance

variable {o : Op V} {os : List (Op V)} (h : Follows S g ⟨m, Function.update th w (o :: os)⟩)
  (hfresh : Fresh S m (Function.update th w (o :: os)) w o)

include h hfresh

theorem Follows.value_advance (f : φ) :
    S.norm f ((advanced S m th w (o :: os)).shared.value f) = g.value f ∨
      Pending (Op.Assigns f) (advanced S m th w (o :: os)).thread := by
  have hf := h.value f
  cases o with
  | assign k x =>
    rcases eq_or_ne f k with rfl | hne
    · refine Or.inl ?_
      have := h.assigned w f x (by simp)
      simpa [advanced, Schema.advance, access] using this.symm
    · refine hf.imp (fun heq => ?_) fun hp => hp.tail fun ho => hne ho.symm
      simpa [advanced, Schema.advance, access, hne] using heq
  | clamp k => exact hf.imp_right fun hp => hp.advance fun ho => ho.elim
  | store k x =>
    rcases eq_or_ne f k with rfl | hne
    · rcases hfresh with rfl | hassigns
      · refine hf.imp (fun heq => ?_) fun hp => hp.tail id
        simpa [advanced, Schema.advance, access, S.norm_norm] using heq
      · exact Or.inr hassigns.of_update.pending
    · refine hf.imp (fun heq => ?_) fun hp => hp.tail id
      simpa [advanced, Schema.advance, access, hne] using heq
  | publish k => exact hf.imp_right fun hp => hp.advance fun ho => ho.elim
  | expose k x => exact hf.imp_right fun hp => hp.tail id

theorem Follows.gauge_advance (f : φ) :
    (advanced S m th w (o :: os)).shared.gauge f =
        S.render f ((advanced S m th w (o :: os)).shared.value f) ∨
      Pending (Op.Publishes f) (advanced S m th w (o :: os)).thread := by
  have hf := h.gauge f
  have htidy : S.Tidy (o :: os) := by simpa using h.sound.tidy w
  cases o with
  | assign k x | store k x =>
    -- the field has changed, and is about to be shown
    rcases eq_or_ne f k with rfl | hne
    · exact Or.inr (pending_update htidy.1.2)
    · refine hf.imp (fun heq => ?_) fun hp => hp.tail id
      simpa [advanced, Schema.advance, access, hne] using heq
  | clamp k => exact hf.imp_right fun hp => hp.advance fun ho => ho.elim
  | publish k =>
    exact hf.imp_right fun hp => hp.advance fun ho => ⟨_, List.mem_singleton_self _, ho⟩
  | expose k x =>
    rcases eq_or_ne f k with rfl | hne
    · rcases hfresh with rfl | hpublishes
      · exact Or.inl (by simp [advanced, Schema.advance, access])
      · exact Or.inr hpublishes.of_update.pending
    · refine hf.imp (fun heq => ?_) fun hp => hp.tail fun ho => hne ho.symm
      simpa [advanced, Schema.advance, access, hne] using heq

end Advance

theorem Follows.advance (h : Follows S g ⟨m, Function.update th w us⟩)
    (hfresh : ∀ o ∈ us.head?, Fresh S m (Function.update th w us) w o) :
    Follows S g (advanced S m th w us) where
  sound := h.sound.advance
  normal := h.normal
  shown := h.shown
  assigned := fun v f y hmem => by
    rcases eq_or_ne v w with rfl | hv
    · simp only [advanced, Function.update_self] at hmem
      exact h.assigned v f y (by simpa using mem_advance hmem)
    · simp only [advanced, Function.update_of_ne hv] at hmem
      exact h.assigned v f y (by simpa [hv] using hmem)
  value := fun f => by
    cases us with
    | nil => exact h.value f
    | cons o os => exact h.value_advance (hfresh o rfl) f
  gauge := fun f => by
    cases us with
    | nil => exact h.gauge f
    | cons o os => exact h.gauge_advance (hfresh o rfl) f

/-- The result of the calls begun so far, after another event. -/
def callsThen (S : Schema φ V G) (g : Memory V G) (e : ω × Option (Call S)) : Memory V G :=
  e.2.elim g (S.call g)

theorem Follows.step {s s' : Pool ω (Memory V G) (List (Op V))} {e : ω × Option (Call S)}
    (h : Follows S g s) (hC : Undisturbed S s e s') (he : Pool.step S.threadStep s e = some s') :
    Follows S (callsThen S g e) s' := by
  obtain ⟨w, a⟩ := e
  rcases step_cases he with ⟨c, rfl, hw, rfl⟩ | ⟨rfl, -, rfl⟩
  · exact (h.begin hw hC).advance fun o ho => fresh_of_mem_script (List.mem_of_head? ho)
  · have hself : Function.update s.thread w (s.thread w) = s.thread := Function.update_eq_self _ _
    refine Follows.advance ?_ ?_ <;> rw [hself]
    · exact h
    · exact hC

/-- The calls that a run begins, in the order in which it does. -/
def calls (es : List (ω × Option (Call S))) : List (Call S) := es.filterMap Prod.snd

omit [DecidableEq ω] in
theorem foldl_callsThen (es : List (ω × Option (Call S))) (g : Memory V G) :
    es.foldl (callsThen S) g = (calls es).foldl S.call g := by
  rw [calls, List.foldl_filterMap]
  congr 1
  funext g e
  rcases e with ⟨w, _ | c⟩ <;> rfl

/-- **The calls are as if made one after the other**, in the order in which they began, in the runs
in which they are not disturbed. -/
theorem eq_calls_of_undisturbed {m : Memory V G} (hm : S.Normal m) (hshown : S.Shown m)
    {es : List (ω × Option (Call S))} {s : Pool ω (Memory V G) (List (Op V))}
    (hC : Along (Pool.step S.threadStep) (Undisturbed S) (Schema.start ω m) es)
    (h : run (Pool.step S.threadStep) (Schema.start ω m) es = some s) (hq : Quiescent s) :
    s.shared = (calls es).foldl S.call m ∧ S.Shown s.shared := by
  have key := hC.invariant_foldl (f := callsThen S) (I := Follows S)
    (fun _ _ _ _ hI hC he => hI.step hC he) (Follows.start hm hshown) h
  have heq := key.eq_of_quiescent hq
  refine ⟨heq.trans (foldl_callsThen es m), ?_⟩
  rw [heq]
  exact key.shown

end Steps

end Schema

end PartialUpdate
