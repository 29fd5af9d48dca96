import EdgeCache.Cache.StandIn
import EdgeCache.Foundations.Pool

/-!
# Lazy expiry under concurrency

Any number of threads are in calls of one `_InMemoryStore` at the same time, and take turns after
each operation on the dictionary and each reading of the clock (`storeStep`). A `get` that has found
an expired entry removes the key, whatever is under it by then: so it can remove what another thread
has just set. And the deadline of an entry counts from the reading of the clock, which `set` makes
before it assigns.

A `set` is fresh for `ex` seconds after it has completed (`Fresh`). If no `get` removes the entry of
a fresh `set`, or takes it to have expired, a `get` that starts later returns its value for as long
as it is fresh (`answers_of_keepsFresh`).
-/

namespace EdgeCache.Cache

open Transition

/-- The call decides what is under the key. -/
def StoreCall.Touches (key : String) : StoreCall → Prop
  | .get _ => False
  | .set key' _ _ => key' = key
  | .flushdb => True

/-- The store and the clock, and the `set` and `flushdb` calls that have completed. A `set` that has
raised is not among them. -/
structure SharedStore where
  store : MemoryStore
  clock : ℚ
  log : StoreHistory

/-- A thread and the call that it is in, or has made last. A `get` comes with the log at its start,
and the time at which it last looked at the store or at the clock. -/
inductive StoreThread
  | idle
  | getting (key : String) (since : StoreHistory) (looked : ℚ) (t : MemGet)
  | setting (key : String) (value : Bytes) (ex : ℤ) (t : MemSet)
  deriving DecidableEq

/-- The call has returned. -/
def StoreThread.free : StoreThread → Bool
  | .idle | .getting _ _ _ (.done _) | .setting _ _ _ (.done _) => true
  | _ => false

/-- The reading of the clock at a step, and the call that the thread starts with it, if any. -/
structure StoreAct where
  now : ℚ
  call : Option StoreCall

/-- A thread starts a call. `flushdb` is one operation. -/
def SharedStore.start (g : SharedStore) : StoreCall → SharedStore × StoreThread
  | .get key => (g, .getting key g.log g.clock .lookup)
  | .set key value ex => (g, .setting key value ex .stamp)
  | .flushdb =>
    ({ g with store := memFlushdb g.store, log := g.log ++ [(g.clock, .flushdb)] }, .idle)

/-- A thread takes the next step of its call. -/
def SharedStore.go (g : SharedStore) : StoreThread → Option (SharedStore × StoreThread)
  | .idle => none
  | .getting key since looked t =>
    (memGetStep key g.clock g.store t).map fun q =>
      ({ g with store := q.1 }, .getting key since (if t = .pop then looked else g.clock) q.2)
  | .setting key value ex t =>
    (memSetStep key value ex g.clock g.store t).map fun q =>
      ({ g with
          store := q.1
          log := if q.2 = .done (.ok ()) then g.log ++ [(g.clock, .set key value ex)] else g.log },
        .setting key value ex q.2)

/-- One step of a thread. -/
def storeStep {ω : Type*} (_ : ω) (g : SharedStore) (t : StoreThread) (a : StoreAct) :
    Option (SharedStore × StoreThread) :=
  if a.now < g.clock then none
  else
    match a.call with
    | some c => if t.free then some (SharedStore.start { g with clock := a.now } c) else none
    | none => SharedStore.go { g with clock := a.now } t

/-- A store and the threads that use it. -/
abbrev Stores (ω : Type*) := Pool ω SharedStore StoreThread

/-- A new store, when the clock reads `t`. -/
def newStore (ω : Type*) (t : ℚ) : Stores ω := ⟨⟨fun _ => none, t, []⟩, fun _ => .idle⟩

/-! ## What a get returns -/

/-- If, when a `get` started, the last `set` of its key had completed at `t` with `ex > 0`, and no
other `set` of the key or `flushdb` has taken effect since, then the `get` has returned its value,
unless it looked later than `t + ex`. -/
def StoreThread.Answers (log : StoreHistory) : StoreThread → Prop
  | .getting key since looked (.done r) =>
    ∀ t value ex post, lastSet (fun _ => True) key since = some (t, value, ex) → 0 < ex →
      looked ≤ t + ex → log = since ++ post → (∀ e ∈ post, ¬ e.2.Touches key) → r = some value
  | _ => True

/-- The last `set` of the key had `ex > 0` and completed at most `ex` seconds ago. -/
def Fresh (log : StoreHistory) (now : ℚ) (key : String) : Prop :=
  ∃ s ∈ lastSet (fun _ => True) key log, 0 < s.2.2 ∧ now ≤ s.1 + s.2.2

instance (log : StoreHistory) (now : ℚ) (key : String) : Decidable (Fresh log now key) :=
  inferInstanceAs (Decidable (∃ s ∈ lastSet (fun _ => True) key log, _))

/-- The step, if it is one of a `get`, neither removes what a fresh `set` has stored nor finds that
it has expired. -/
def StoreThread.KeepsFresh (g : SharedStore) (now : ℚ) : StoreThread → Prop
  | .getting key _ _ .pop => ¬ Fresh g.log now key
  | .getting key _ _ (.check value expiresAt) =>
    g.store key = some (value, some expiresAt) → expiresAt < now → ¬ Fresh g.log now key
  | _ => True

instance (g : SharedStore) (now : ℚ) : DecidablePred (StoreThread.KeepsFresh g now)
  | .getting key _ _ .pop => inferInstanceAs (Decidable (¬ Fresh g.log now key))
  | .getting key _ _ (.check value expiresAt) =>
    inferInstanceAs (Decidable
      (g.store key = some (value, some expiresAt) → expiresAt < now → ¬ Fresh g.log now key))
  | .getting _ _ _ .lookup | .getting _ _ _ (.done _) | .idle | .setting .. =>
    inferInstanceAs (Decidable True)

variable {ω : Type*}

def KeepsFresh (s : Stores ω) (e : ω × StoreAct) (_ : Stores ω) : Prop :=
  (s.thread e.1).KeepsFresh s.shared e.2.now

instance (s : Stores ω) (e : ω × StoreAct) (s' : Stores ω) : Decidable (KeepsFresh s e s') :=
  inferInstanceAs (Decidable ((s.thread e.1).KeepsFresh s.shared e.2.now))

/-! ## The effect of a step -/

/-- What a step of a thread can do, when the clock has moved on. -/
inductive StoreEffect : SharedStore → StoreThread → SharedStore → StoreThread → Prop
  | get (g : SharedStore) (t : StoreThread) (key : String) :
    StoreEffect g t g (.getting key g.log g.clock .lookup)
  | set (g : SharedStore) (t : StoreThread) (key : String) (value : Bytes) (ex : ℤ) :
    StoreEffect g t g (.setting key value ex .stamp)
  | flushdb (g : SharedStore) (t : StoreThread) :
    StoreEffect g t { g with store := fun _ => none, log := g.log ++ [(g.clock, .flushdb)] } .idle
  | absent {g : SharedStore} {key : String} (since : StoreHistory) (looked : ℚ)
    (h : g.store key = none) :
    StoreEffect g (.getting key since looked .lookup) g (.getting key since g.clock (.done none))
  | forever {g : SharedStore} {key : String} {value : Bytes} (since : StoreHistory) (looked : ℚ)
    (h : g.store key = some (value, none)) :
    StoreEffect g (.getting key since looked .lookup) g
      (.getting key since g.clock (.done (some value)))
  | found {g : SharedStore} {key : String} {value : Bytes} {expiresAt : ℚ} (since : StoreHistory)
    (looked : ℚ) (h : g.store key = some (value, some expiresAt)) :
    StoreEffect g (.getting key since looked .lookup) g
      (.getting key since g.clock (.check value expiresAt))
  | expired {g : SharedStore} {expiresAt : ℚ} (key : String) (since : StoreHistory) (looked : ℚ)
    (value : Bytes) (h : expiresAt < g.clock) :
    StoreEffect g (.getting key since looked (.check value expiresAt)) g
      (.getting key since g.clock .pop)
  | alive {g : SharedStore} {expiresAt : ℚ} (key : String) (since : StoreHistory) (looked : ℚ)
    (value : Bytes) (h : ¬ expiresAt < g.clock) :
    StoreEffect g (.getting key since looked (.check value expiresAt)) g
      (.getting key since g.clock (.done (some value)))
  | pop (g : SharedStore) (key : String) (since : StoreHistory) (looked : ℚ) :
    StoreEffect g (.getting key since looked .pop)
      { g with store := Function.update g.store key none } (.getting key since looked (.done none))
  | stamp (g : SharedStore) (key : String) (value : Bytes) (ex : ℤ) :
    StoreEffect g (.setting key value ex .stamp) g
      (.setting key value ex (.assign (if ex ≠ 0 then some (g.clock + ex) else none)))
  | raised (g : SharedStore) (key : String) (value : Bytes) (ex : ℤ) :
    StoreEffect g (.setting key value ex .stamp) g
      (.setting key value ex (.done (.error .overflowError)))
  | assign (g : SharedStore) (key : String) (value : Bytes) (ex : ℤ) (expiresAt : Option ℚ) :
    StoreEffect g (.setting key value ex (.assign expiresAt))
      { g with
        store := Function.update g.store key (some (value, expiresAt))
        log := g.log ++ [(g.clock, .set key value ex)] }
      (.setting key value ex (.done (.ok ())))

theorem effect_of_go {g g' : SharedStore} {t t' : StoreThread} (h : g.go t = some (g', t')) :
    StoreEffect g t g' t' := by
  cases t with
  | idle => cases h
  | getting key since looked t =>
    obtain ⟨⟨m, t₁⟩, hget, heq⟩ := Option.map_eq_some_iff.1 h
    obtain ⟨rfl, rfl⟩ := Prod.mk.inj heq
    cases t with
    | lookup =>
      simp only [memGetStep] at hget
      split at hget <;> obtain ⟨rfl, rfl⟩ := Prod.mk.inj (Option.some.inj hget)
      · next hk => exact .absent since looked hk
      · next hk => exact .forever since looked hk
      · next hk => exact .found since looked hk
    | check value expiresAt =>
      obtain ⟨rfl, rfl⟩ := Prod.mk.inj (Option.some.inj hget)
      by_cases hlt : expiresAt < g.clock
      · simpa [hlt] using StoreEffect.expired key since looked value hlt
      · simpa [hlt] using StoreEffect.alive key since looked value hlt
    | pop =>
      obtain ⟨rfl, rfl⟩ := Prod.mk.inj (Option.some.inj hget)
      exact .pop g key since looked
    | done => cases hget
  | setting key value ex t =>
    obtain ⟨⟨m, t₁⟩, hset, heq⟩ := Option.map_eq_some_iff.1 h
    obtain ⟨rfl, rfl⟩ := Prod.mk.inj heq
    cases t with
    | stamp =>
      rw [memSetStep_stamp] at hset
      obtain ⟨rfl, rfl⟩ := Prod.mk.inj (Option.some.inj hset)
      by_cases hfits : PyFloat.Fits ex
      · simpa [hfits] using StoreEffect.stamp g key value ex
      · simpa [hfits] using StoreEffect.raised g key value ex
    | assign expiresAt =>
      obtain ⟨rfl, rfl⟩ := Prod.mk.inj (Option.some.inj hset)
      exact .assign g key value ex expiresAt
    | done => cases hset

theorem storeStep_effect {w : ω} {g g' : SharedStore} {t t' : StoreThread} {a : StoreAct}
    (h : storeStep w g t a = some (g', t')) :
    g.clock ≤ a.now ∧ StoreEffect { g with clock := a.now } t g' t' := by
  obtain ⟨hclock, h⟩ := Option.ite_none_left_eq_some.1 h
  refine ⟨not_lt.1 hclock, ?_⟩
  split at h
  · next c _ =>
    obtain ⟨-, h⟩ := Option.ite_none_right_eq_some.1 h
    obtain ⟨rfl, rfl⟩ := Prod.mk.inj (Option.some.inj h)
    cases c with
    | get key => exact .get _ _ key
    | set key value ex => exact .set _ _ key value ex
    | flushdb => exact .flushdb _ _
  · exact effect_of_go h

/-! ## What a fresh set keeps -/

section Log

variable {key : String} {log post : StoreHistory} {e : ℚ × StoreCall}

theorem lastSet_concat_of_not_touches (h : ¬ e.2.Touches key) :
    lastSet (fun _ => True) key (log ++ [e]) = lastSet (fun _ => True) key log := by
  rw [lastSet_concat]
  obtain ⟨t, c⟩ := e
  cases c with
  | get => rfl
  | set key' value ex => exact if_neg fun hk => h hk.1
  | flushdb => exact absurd trivial h

theorem lastSet_append_of_not_touches (h : ∀ e ∈ post, ¬ e.2.Touches key) :
    lastSet (fun _ => True) key (log ++ post) = lastSet (fun _ => True) key log := by
  induction post using List.reverseRecOn with
  | nil => rw [List.append_nil]
  | append_singleton post e ih =>
    rw [← List.append_assoc, lastSet_concat_of_not_touches (h e (by simp))]
    exact ih fun e' he' => h e' (by simp [he'])

end Log

/-- What a fresh `set` has stored is there. -/
def SharedStore.Kept (g : SharedStore) : Prop :=
  ∀ key t value ex, lastSet (fun _ => True) key g.log = some (t, value, ex) → 0 < ex →
    g.clock ≤ t + ex → ∃ expiresAt : ℚ, g.store key = some (value, some expiresAt)

/-- Where a `get` can be that started after a `set` of the value, which is fresh until `u`. -/
def MemGet.Finds (g : SharedStore) (key : String) (value : Bytes) (looked u : ℚ) : MemGet → Prop
  | .lookup => True
  | .check value' expiresAt =>
    g.clock ≤ u → value' = value ∧ g.store key = some (value, some expiresAt)
  | .pop => u < looked
  | .done r => looked ≤ u → r = some value

/-- A `get` finds what the last `set` before it has stored, as long as no other one takes effect. A
`set` that is about to store a value with `ex > 0` gives it a deadline. -/
def StoreThread.Sound (g : SharedStore) : StoreThread → Prop
  | .idle => True
  | .getting key since looked t =>
    ∃ post, g.log = since ++ post ∧ ((∀ e ∈ post, ¬ e.2.Touches key) →
      ∀ t₀ value ex, lastSet (fun _ => True) key since = some (t₀, value, ex) → 0 < ex →
        t.Finds g key value looked (t₀ + ex))
  | .setting _ _ ex (.assign d) => 0 < ex → ∃ expiresAt : ℚ, d = some expiresAt
  | .setting .. => True

section Invariant

variable {g g' : SharedStore} {t t' u : StoreThread}

theorem SharedStore.Kept.tick (h : g.Kept) {now : ℚ} (hnow : g.clock ≤ now) :
    SharedStore.Kept { g with clock := now } :=
  fun key t value ex hlast hex hle => h key t value ex hlast hex (hnow.trans hle)

theorem StoreThread.Sound.tick (h : t.Sound g) {now : ℚ} (hnow : g.clock ≤ now) :
    t.Sound { g with clock := now } := by
  cases t with
  | idle => trivial
  | getting key since looked t =>
    obtain ⟨post, hlog, hfinds⟩ := h
    refine ⟨post, hlog, fun hpost t₀ value ex hlast hex => ?_⟩
    have ht := hfinds hpost t₀ value ex hlast hex
    cases t with
    | check => exact fun hle => ht (hnow.trans hle)
    | _ => exact ht
  | setting key value ex t => cases t <;> exact h

theorem fresh_of_lastSet {log : StoreHistory} {now t : ℚ} {key : String} {value : Bytes} {ex : ℤ}
    (h : lastSet (fun _ => True) key log = some (t, value, ex)) (hex : 0 < ex)
    (hle : now ≤ t + ex) : Fresh log now key :=
  ⟨_, h, hex, hle⟩

theorem kept_of_effect (hg : g.Kept) (ht : t.Sound g) (hC : t.KeepsFresh g g.clock)
    (heff : StoreEffect g t g' t') : g'.Kept := by
  cases heff with
  | flushdb =>
    intro key t value ex hlast
    rw [lastSet_concat] at hlast
    cases hlast
  | pop key since looked =>
    intro key' t value ex hlast hex hle
    have hne : key' ≠ key := by
      rintro rfl
      exact hC (fresh_of_lastSet hlast hex hle)
    obtain ⟨expiresAt, hkey⟩ := hg key' t value ex hlast hex hle
    exact ⟨expiresAt, by simp [hne, hkey]⟩
  | assign key value ex d =>
    intro key' t value' ex' hlast hex hle
    rw [lastSet_concat] at hlast
    simp only [and_true] at hlast
    rcases eq_or_ne key key' with rfl | hne
    · rw [if_pos rfl] at hlast
      cases hlast
      obtain ⟨expiresAt, rfl⟩ := ht hex
      exact ⟨expiresAt, Function.update_self ..⟩
    · rw [if_neg hne] at hlast
      obtain ⟨expiresAt, hkey⟩ := hg key' t value' ex' hlast hex hle
      exact ⟨expiresAt, by simp [hne.symm, hkey]⟩
  | _ => exact hg

/-- A thread keeps its own assertion. -/
theorem sound_of_effect (hg : g.Kept) (ht : t.Sound g) (hC : t.KeepsFresh g g.clock)
    (heff : StoreEffect g t g' t') : t'.Sound g' := by
  cases heff with
  | get t key => exact ⟨[], (List.append_nil _).symm, fun _ _ _ _ _ _ => trivial⟩
  | absent since looked hk | forever since looked hk =>
    obtain ⟨post, hlog, -⟩ := ht
    refine ⟨post, hlog, fun hpost t₀ value' ex hlast hex hle => ?_⟩
    rw [← lastSet_append_of_not_touches hpost, ← hlog] at hlast
    obtain ⟨expiresAt, hkey⟩ := hg _ t₀ value' ex hlast hex hle
    rw [hk] at hkey
    cases hkey
  | found since looked hk =>
    obtain ⟨post, hlog, -⟩ := ht
    refine ⟨post, hlog, fun hpost t₀ value' ex hlast hex hle => ?_⟩
    rw [← lastSet_append_of_not_touches hpost, ← hlog] at hlast
    obtain ⟨expiresAt, hkey⟩ := hg _ t₀ value' ex hlast hex hle
    rw [hk] at hkey
    cases hkey
    exact ⟨rfl, hk⟩
  | expired key since looked value hlt =>
    obtain ⟨post, hlog, hfinds⟩ := ht
    refine ⟨post, hlog, fun hpost t₀ value' ex hlast hex => lt_of_not_ge fun hle => ?_⟩
    obtain ⟨rfl, hkey⟩ := hfinds hpost t₀ value' ex hlast hex hle
    rw [← lastSet_append_of_not_touches hpost, ← hlog] at hlast
    exact hC hkey hlt (fresh_of_lastSet hlast hex hle)
  | alive key since looked value hlt =>
    obtain ⟨post, hlog, hfinds⟩ := ht
    refine ⟨post, hlog, fun hpost t₀ value' ex hlast hex hle => ?_⟩
    rw [(hfinds hpost t₀ value' ex hlast hex hle).1]
  | pop key since looked =>
    obtain ⟨post, hlog, hfinds⟩ := ht
    refine ⟨post, hlog, fun hpost t₀ value' ex hlast hex hle => ?_⟩
    exact absurd (hfinds hpost t₀ value' ex hlast hex) (not_lt.2 hle)
  | stamp key value ex =>
    intro hex
    exact ⟨_, if_pos hex.ne'⟩
  | _ => trivial

/-- A thread keeps the assertion of another one. -/
theorem sound_of_effect_other (hu : u.Sound g) (hC : t.KeepsFresh g g.clock)
    (heff : StoreEffect g t g' t') : u.Sound g' := by
  cases u with
  | idle => trivial
  | setting key value ex t => cases t <;> exact hu
  | getting key since looked t =>
    obtain ⟨post, hlog, hfinds⟩ := hu
    cases heff with
    | flushdb =>
      refine ⟨post ++ [(g.clock, .flushdb)], by simp [hlog], fun hpost => ?_⟩
      exact (hpost (g.clock, .flushdb) (by simp) trivial).elim
    | assign key' value' ex' d =>
      refine ⟨post ++ [(g.clock, .set key' value' ex')], by simp [hlog], fun hpost => ?_⟩
      have hne : key ≠ key' := fun hk => hpost (g.clock, .set key' value' ex') (by simp) hk.symm
      have hpost' : ∀ e ∈ post, ¬ e.2.Touches key := fun e he => hpost e (by simp [he])
      intro t₀ value ex hlast hex
      have ht := hfinds hpost' t₀ value ex hlast hex
      cases t with
      | check => exact fun hle => by simpa [hne] using ht hle
      | _ => exact ht
    | pop key' since' looked' =>
      refine ⟨post, hlog, fun hpost t₀ value ex hlast hex => ?_⟩
      have ht := hfinds hpost t₀ value ex hlast hex
      cases t with
      | check =>
        intro hle
        rw [← lastSet_append_of_not_touches hpost, ← hlog] at hlast
        have hne : key ≠ key' := by
          rintro rfl
          exact hC (fresh_of_lastSet hlast hex hle)
        simpa [hne] using ht hle
      | _ => exact ht
    | _ => exact ⟨post, hlog, hfinds⟩

end Invariant

variable [DecidableEq ω]

/-- **Lazy expiry keeps what is fresh**, in every run where no `get` removes the entry of a fresh
`set` or takes it to have expired. -/
theorem answers_of_keepsFresh {t : ℚ} {s : Stores ω} {es : List (ω × StoreAct)}
    (hC : Along (Pool.step storeStep) KeepsFresh (newStore ω t) es)
    (h : run (Pool.step storeStep) (newStore ω t) es = some s) (w : ω) :
    (s.thread w).Answers s.shared.log := by
  have hstep : ∀ (s : Stores ω) e s', (s.shared.Kept ∧ ∀ v, (s.thread v).Sound s.shared) →
      KeepsFresh s e s' → Pool.step storeStep s e = some s' →
      s'.shared.Kept ∧ ∀ v, (s'.thread v).Sound s'.shared := by
    rintro s ⟨w, a⟩ s' ⟨hkept, hsound⟩ hfresh he
    obtain ⟨g, t, hw, rfl⟩ := Pool.step_eq_some.1 he
    obtain ⟨hclock, heff⟩ := storeStep_effect hw
    refine ⟨kept_of_effect (hkept.tick hclock) ((hsound w).tick hclock) hfresh heff, fun v => ?_⟩
    rcases eq_or_ne v w with rfl | hv
    · simpa using sound_of_effect (hkept.tick hclock) ((hsound v).tick hclock) hfresh heff
    · simpa [hv] using sound_of_effect_other ((hsound v).tick hclock) hfresh heff
  have hs : (newStore ω t).shared.Kept ∧
      ∀ v, ((newStore ω t).thread v).Sound (newStore ω t).shared :=
    ⟨fun _ _ _ _ hlast => (Option.some_ne_none _ hlast.symm).elim, fun _ => trivial⟩
  have hw := (hC.invariant hstep hs h).2 w
  generalize s.thread w = x at hw
  match x, hw with
  | .getting key since looked (.done r), ⟨post, hlog, hfinds⟩ =>
    intro t₀ value ex post' hlast hex hle hlog' hpost'
    obtain rfl := List.append_cancel_left (hlog.symm.trans hlog')
    exact hfinds hpost' t₀ value ex hlast hex hle
  | .idle, _ | .setting .., _ => trivial
  | .getting _ _ _ .lookup, _ | .getting _ _ _ (.check ..), _ | .getting _ _ _ .pop, _ => trivial

/-- A value that expires and is removed, and is then set again, while another thread reads it. -/
def expiryInOrder : List (ℕ × StoreAct) :=
  [(0, ⟨0, some (.set "k" [1] 1)⟩), (0, ⟨0, none⟩), (0, ⟨0, none⟩),
    (1, ⟨2, some (.get "k")⟩), (1, ⟨2, none⟩), (1, ⟨2, none⟩), (1, ⟨2, none⟩),
    (0, ⟨2, some (.set "k" [2] 10)⟩), (0, ⟨2, none⟩), (0, ⟨2, none⟩),
    (1, ⟨12, some (.get "k")⟩), (1, ⟨12, none⟩), (1, ⟨12, none⟩)]

theorem expiryInOrder_answers : ∃ s : Stores ℕ,
    run (Pool.step storeStep) (newStore ℕ 0) expiryInOrder = some s ∧
      (∃ since looked, s.thread 1 = .getting "k" since looked (.done (some [2]))) ∧
        ∀ w, (s.thread w).Answers s.shared.log := by
  obtain ⟨s, hs, hobs⟩ := Option.map_eq_some_iff.1
    (show (run (Pool.step storeStep) (newStore ℕ 0) expiryInOrder).map (fun s => s.thread 1) =
      some (.getting "k" [(0, .set "k" [1] 1), (2, .set "k" [2] 10)] 12 (.done (some [2])))
      by decide +kernel)
  exact ⟨s, hs, ⟨_, _, hobs⟩, fun w => answers_of_keepsFresh (by decide +kernel) hs w⟩

/-- A `get` that has found an expired entry removes the key after another thread has set it. -/
def expiryRace : List (ℕ × StoreAct) :=
  [(0, ⟨0, some (.set "k" [1] 1)⟩), (0, ⟨0, none⟩), (0, ⟨0, none⟩),
    (1, ⟨2, some (.get "k")⟩), (1, ⟨2, none⟩), (1, ⟨2, none⟩),
    (0, ⟨2, some (.set "k" [2] 10)⟩), (0, ⟨2, none⟩), (0, ⟨2, none⟩),
    (1, ⟨2, none⟩),
    (2, ⟨3, some (.get "k")⟩), (2, ⟨3, none⟩)]

/-- A value that is fresh and lost: it was set at 2 for ten seconds, and a `get` at 3 misses. -/
theorem expiryRace_loses : ∃ s : Stores ℕ,
    run (Pool.step storeStep) (newStore ℕ 0) expiryRace = some s ∧
      s.shared.log = [(0, .set "k" [1] 1), (2, .set "k" [2] 10)] ∧
        s.thread 2 = .getting "k" s.shared.log 3 (.done none) ∧
          ¬ (s.thread 2).Answers s.shared.log := by
  obtain ⟨s, hs, hobs⟩ := Option.map_eq_some_iff.1
    (show (run (Pool.step storeStep) (newStore ℕ 0) expiryRace).map
        (fun s => (s.shared.log, s.thread 2)) =
      some ([(0, .set "k" [1] 1), (2, .set "k" [2] 10)],
        .getting "k" [(0, .set "k" [1] 1), (2, .set "k" [2] 10)] 3 (.done none)) by decide +kernel)
  obtain ⟨hlog, hthread⟩ := Prod.mk.inj hobs
  refine ⟨s, hs, hlog, by rw [hthread, hlog], fun hanswers => ?_⟩
  rw [hthread, hlog] at hanswers
  have h : (none : Option Bytes) = some [2] :=
    hanswers 2 [2] 10 [] (by decide +kernel) (by decide) (by norm_num) rfl (by simp)
  cases h

end EdgeCache.Cache
