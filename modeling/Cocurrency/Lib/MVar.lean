/-
# Variables that are empty or full

An `MVar` holds one value or none.  `take` waits until it is full and empties it, `put` waits until
it is empty and fills it, and `tryTake` empties it without waiting.

Such a variable is a lock if whoever takes it puts a value back next (`Lends`).

* `run_flow` : a variable is a queue with one place;
* `Lends.step` : then it is empty just as long as somebody has it, and nobody else has;
* `Lends.full_of_stuck` : where no thread can go on all locks are free.
-/
import Cocurrency.Lib.Run
import Mathlib.Logic.Function.Basic

namespace MVar

/-- What a thread does next: `υ v` are the values of the variable `v`, and where the thread goes on
is a `κ`. -/
inductive Instr (ν : Type*) (υ : ν → Type*) (κ : Type*) where
  | take (v : ν) (next : υ v → κ)
  | put (v : ν) (x : υ v) (next : κ)
  | tryTake (v : ν) (next : Option (υ v) → κ)
  | finished

/-- The contents of the variables, and where the threads are. -/
structure State (τ ν : Type*) (υ : ν → Type*) (κ : Type*) where
  content : ∀ v, Option (υ v)
  control : τ → κ

/-- What a step shows. -/
inductive Event (τ ν : Type*) (υ : ν → Type*) where
  | takes (t : τ) (v : ν) (x : υ v)
  | puts (t : τ) (v : ν) (x : υ v)
  | tries (t : τ) (v : ν) (x : Option (υ v))

variable {τ ν κ : Type*} {υ : ν → Type*} [DecidableEq τ] [DecidableEq ν]

namespace State

/-- Thread `t` leaves `x` in `v` and goes on at `k`. -/
def set (s : State τ ν υ κ) (v : ν) (x : Option (υ v)) (t : τ) (k : κ) : State τ ν υ κ :=
  ⟨Function.update s.content v x, Function.update s.control t k⟩

variable {s : State τ ν υ κ} {v : ν} {x : Option (υ v)} {t : τ} {k : κ}

/-- The variable that is set. -/
@[simp] theorem set_content_self : (s.set v x t k).content v = x := Function.update_self _ _ _

theorem set_content_of_ne {w : ν} (h : w ≠ v) : (s.set v x t k).content w = s.content w :=
  Function.update_of_ne h _ _

/-- The thread that has moved. -/
@[simp] theorem set_control_self : (s.set v x t k).control t = k := Function.update_self _ _ _

theorem set_control_of_ne {u : τ} (h : u ≠ t) : (s.set v x t k).control u = s.control u :=
  Function.update_of_ne h _ _

end State

/-- The next step of thread `t`, unless it has finished or waits. -/
def step (code : κ → Instr ν υ κ) (s : State τ ν υ κ) (t : τ) :
    Option (Event τ ν υ × State τ ν υ κ) :=
  match code (s.control t) with
  | .take v next =>
      match s.content v with
      | some x => some (.takes t v x, s.set v none t (next x))
      | none => none
  | .put v x next =>
      match s.content v with
      | some _ => none
      | none => some (.puts t v x, s.set v (some x) t next)
  | .tryTake v next => some (.tries t v (s.content v), s.set v none t (next (s.content v)))
  | .finished => none

/-- What a step of thread `t` does. -/
inductive Effect (code : κ → Instr ν υ κ) (s : State τ ν υ κ) (t : τ) :
    Event τ ν υ → State τ ν υ κ → Prop
  | takes (v : ν) (next : υ v → κ) (x : υ v) : code (s.control t) = .take v next →
      s.content v = some x → Effect code s t (.takes t v x) (s.set v none t (next x))
  | puts (v : ν) (x : υ v) (next : κ) : code (s.control t) = .put v x next →
      s.content v = none → Effect code s t (.puts t v x) (s.set v (some x) t next)
  | tries (v : ν) (next : Option (υ v) → κ) : code (s.control t) = .tryTake v next →
      Effect code s t (.tries t v (s.content v)) (s.set v none t (next (s.content v)))

variable {code : κ → Instr ν υ κ} {s s' : State τ ν υ κ} {t : τ} {e : Event τ ν υ}

/-- What a step does. -/
theorem effect_step (h : step code s t = some (e, s')) : Effect code s t e s' := by
  unfold step at h
  split at h
  · next v next hcode =>
    split at h
    · next x hx =>
      cases h
      exact .takes v next x hcode hx
    · cases h
  · next v x next hcode =>
    split at h
    · cases h
    · next hx =>
      cases h
      exact .puts v x next hcode hx
  · next v next hcode =>
    cases h
    exact .tries v next hcode
  · cases h

/-- `takeMVar` finds a value. -/
theorem step_take {v : ν} {next : υ v → κ} (hcode : code (s.control t) = .take v next)
    (h : step code s t = some (e, s')) :
    ∃ x, s.content v = some x ∧ e = .takes t v x ∧ s' = s.set v none t (next x) := by
  cases hx : s.content v with
  | none => simp [step, hcode, hx] at h
  | some x =>
      simp only [step, hcode, hx, Option.some.injEq, Prod.mk.injEq] at h
      exact ⟨x, rfl, h.1.symm, h.2.symm⟩

/-- `putMVar` finds the variable empty. -/
theorem step_put {v : ν} {x : υ v} {next : κ} (hcode : code (s.control t) = .put v x next)
    (h : step code s t = some (e, s')) :
    s.content v = none ∧ e = .puts t v x ∧ s' = s.set v (some x) t next := by
  cases hx : s.content v with
  | some y => simp [step, hcode, hx] at h
  | none =>
      simp only [step, hcode, hx, Option.some.injEq, Prod.mk.injEq] at h
      exact ⟨rfl, h.1.symm, h.2.symm⟩

/-- `tryTakeMVar` never waits. -/
theorem step_tryTake {v : ν} {next : Option (υ v) → κ}
    (hcode : code (s.control t) = .tryTake v next) (h : step code s t = some (e, s')) :
    e = .tries t v (s.content v) ∧ s' = s.set v none t (next (s.content v)) := by
  simp only [step, hcode, Option.some.injEq, Prod.mk.injEq] at h
  exact ⟨h.1.symm, h.2.symm⟩

/-- A thread that has finished does nothing. -/
theorem step_finished (hcode : code (s.control t) = .finished) : step code s t = none := by
  rw [step, hcode]

/-! ## What goes through a variable -/

omit [DecidableEq τ] [DecidableEq ν] in
/-- One event more. -/
theorem filterMap_snoc {β : Type*} (f : Event τ ν υ → Option β) (h : List (Event τ ν υ))
    (e : Event τ ν υ) : (h ++ [e]).filterMap f = h.filterMap f ++ (f e).toList := by
  rw [List.filterMap_append]
  cases hf : f e <;> simp [hf]

/-- What is put into `v`. -/
def Event.putInto (v : ν) : Event τ ν υ → Option (υ v)
  | .puts _ w x => if h : w = v then some (h ▸ x) else none
  | _ => none

/-- What is taken out of `v`. -/
def Event.takenFrom (v : ν) : Event τ ν υ → Option (υ v)
  | .takes _ w x => if h : w = v then some (h ▸ x) else none
  | .tries _ w x => if h : w = v then h ▸ x else none
  | .puts _ _ _ => none

omit [DecidableEq τ] in
/-- The value is put into the variable. -/
@[simp] theorem putInto_puts (v : ν) (x : υ v) : (Event.puts t v x).putInto v = some x :=
  dif_pos rfl

omit [DecidableEq τ] in
theorem putInto_of_ne {v w : ν} (h : w ≠ v) (x : υ w) : (Event.puts t w x).putInto v = none :=
  dif_neg h

omit [DecidableEq τ] in
/-- The value is taken from the variable. -/
@[simp] theorem takenFrom_takes (v : ν) (x : υ v) : (Event.takes t v x).takenFrom v = some x :=
  dif_pos rfl

omit [DecidableEq τ] in
/-- What `tryTakeMVar` has found. -/
@[simp] theorem takenFrom_tries (v : ν) (x : Option (υ v)) : (Event.tries t v x).takenFrom v = x :=
  dif_pos rfl

omit [DecidableEq τ] in
theorem takenFrom_takes_of_ne {v w : ν} (h : w ≠ v) (x : υ w) :
    (Event.takes t w x).takenFrom v = none :=
  dif_neg h

omit [DecidableEq τ] in
theorem takenFrom_tries_of_ne {v w : ν} (h : w ≠ v) (x : Option (υ w)) :
    (Event.tries t w x).takenFrom v = none :=
  dif_neg h

/-- What a step puts into a variable, and what it takes out. -/
theorem effect_flow (he : Effect code s t e s') (v : ν) :
    (s.content v).toList ++ (e.putInto v).toList =
      (e.takenFrom v).toList ++ (s'.content v).toList := by
  cases he with
  | takes w next x hcode hx =>
      by_cases h : w = v
      · subst h
        rw [hx, takenFrom_takes, State.set_content_self]
        rfl
      · rw [takenFrom_takes_of_ne h, State.set_content_of_ne (Ne.symm h)]
        exact List.append_nil _
  | puts w x next hcode hx =>
      by_cases h : w = v
      · subst h
        rw [hx, putInto_puts, State.set_content_self]
        rfl
      · rw [putInto_of_ne h, State.set_content_of_ne (Ne.symm h)]
        exact List.append_nil _
  | tries w next hcode =>
      by_cases h : w = v
      · subst h
        rw [takenFrom_tries, State.set_content_self]
        rfl
      · rw [takenFrom_tries_of_ne h, State.set_content_of_ne (Ne.symm h)]
        exact List.append_nil _

/-- **A queue with one place.** -/
theorem run_flow {s₀ : State τ ν υ κ} {h : List (Event τ ν υ)}
    (hr : Run (step code) anyStep s₀ h s) (v : ν) :
    (s₀.content v).toList ++ h.filterMap (Event.putInto v) =
      h.filterMap (Event.takenFrom v) ++ (s.content v).toList := by
  refine hr.invariant (fun h s => (s₀.content v).toList ++ h.filterMap (Event.putInto v) =
    h.filterMap (Event.takenFrom v) ++ (s.content v).toList) (List.append_nil _) ?_
  intro h s t e s' ih _ hs
  have hone := effect_flow (effect_step hs) v
  rw [filterMap_snoc, filterMap_snoc, ← List.append_assoc, ih, List.append_assoc,
    List.append_assoc, hone]

/-! ## Where a thread cannot go on -/

/-- Who is stuck at `takeMVar` finds nothing. -/
theorem empty_of_stuck {v : ν} {next : υ v → κ} (hcode : code (s.control t) = .take v next)
    (h : step code s t = none) : s.content v = none := by
  cases hx : s.content v with
  | none => rfl
  | some x => simp [step, hcode, hx] at h

/-- Who is stuck at `putMVar` finds a value. -/
theorem full_of_stuck {v : ν} {x : υ v} {next : κ} (hcode : code (s.control t) = .put v x next)
    (h : step code s t = none) : ∃ y, s.content v = some y := by
  cases hx : s.content v with
  | some y => exact ⟨y, rfl⟩
  | none => simp [step, hcode, hx] at h

/-- Nobody is stuck at `tryTakeMVar`. -/
theorem not_tryTake_of_stuck {v : ν} {next : Option (υ v) → κ} (h : step code s t = none) :
    code (s.control t) ≠ .tryTake v next := by
  intro hcode
  simp [step, hcode] at h

/-! ## Locks -/

/-- Variables with the property `lock` are taken by threads that have nothing, and put back at once:
`held k` is what a thread at `k` has taken. -/
structure Lends (code : κ → Instr ν υ κ) (lock : ν → Prop) (held : κ → Option ν) : Prop where
  take : ∀ k v next, code k = .take v next →
    held k = none ∧ ∀ x, (lock v → held (next x) = some v) ∧ (¬ lock v → held (next x) = none)
  put : ∀ k v x next, code k = .put v x next →
    (lock v → held k = some v) ∧ (¬ lock v → held k = none) ∧ held next = none
  tryTake : ∀ k v next, code k = .tryTake v next →
    ¬ lock v ∧ held k = none ∧ ∀ x, held (next x) = none
  finished : ∀ k, code k = .finished → held k = none

namespace Lends

variable {lock : ν → Prop} {held : κ → Option ν}

/-- Who has a lock. -/
structure Ok (lock : ν → Prop) (held : κ → Option ν) (s : State τ ν υ κ) : Prop where
  empty_iff : ∀ v, lock v → (s.content v = none ↔ ∃ t, held (s.control t) = some v)
  lock_of_held : ∀ t v, held (s.control t) = some v → lock v
  unique : ∀ t u v, held (s.control t) = some v → held (s.control u) = some v → t = u

/-- A thread that has nothing takes nothing, or no lock. -/
theorem Ok.quiet (h : Ok lock held s) {v : ν} {x : Option (υ v)} {k : κ} (hlock : ¬ lock v)
    (hnow : held (s.control t) = none) (hthen : held k = none) :
    Ok lock held (s.set v x t k) := by
  have hsame : ∀ u, held ((s.set v x t k).control u) = held (s.control u) := by
    intro u
    by_cases hu : u = t
    · subst hu
      rw [State.set_control_self, hnow, hthen]
    · rw [State.set_control_of_ne hu]
  refine ⟨fun w hw => ?_, fun u w => ?_, fun u u' w => ?_⟩
  · have hne : w ≠ v := fun heq => hlock (heq ▸ hw)
    simp only [State.set_content_of_ne hne, hsame]
    exact h.empty_iff w hw
  · rw [hsame]
    exact h.lock_of_held u w
  · rw [hsame, hsame]
    exact h.unique u u' w

/-- A lock is taken. -/
theorem Ok.take (h : Ok lock held s) {v : ν} {x : υ v} {k : κ} (hlock : lock v)
    (hfull : s.content v = some x) (hnow : held (s.control t) = none) (hthen : held k = some v) :
    Ok lock held (s.set v none t k) := by
  -- nobody had it
  have hfree : ∀ u, held (s.control u) ≠ some v := by
    intro u hu
    have hempty := (h.empty_iff v hlock).mpr ⟨u, hu⟩
    rw [hfull] at hempty
    cases hempty
  refine ⟨fun w hw => ?_, fun u w hu => ?_, fun u u' w hu hu' => ?_⟩
  · by_cases hwv : w = v
    · subst hwv
      exact iff_of_true State.set_content_self ⟨t, by rw [State.set_control_self, hthen]⟩
    · rw [State.set_content_of_ne hwv, h.empty_iff w hw]
      constructor
      · rintro ⟨u, hu⟩
        have hne : u ≠ t := by
          rintro rfl
          rw [hnow] at hu
          cases hu
        exact ⟨u, by rw [State.set_control_of_ne hne, hu]⟩
      · rintro ⟨u, hu⟩
        have hne : u ≠ t := by
          rintro rfl
          rw [State.set_control_self, hthen] at hu
          exact hwv (Option.some.inj hu).symm
        rw [State.set_control_of_ne hne] at hu
        exact ⟨u, hu⟩
  · by_cases hut : u = t
    · subst hut
      rw [State.set_control_self, hthen] at hu
      exact Option.some.inj hu ▸ hlock
    · rw [State.set_control_of_ne hut] at hu
      exact h.lock_of_held u w hu
  · by_cases hut : u = t
    · subst hut
      rw [State.set_control_self, hthen] at hu
      cases hu
      by_contra hne
      rw [State.set_control_of_ne (Ne.symm hne)] at hu'
      exact hfree u' hu'
    · rw [State.set_control_of_ne hut] at hu
      by_cases hut' : u' = t
      · subst hut'
        rw [State.set_control_self, hthen] at hu'
        cases hu'
        exact absurd hu (hfree u)
      · rw [State.set_control_of_ne hut'] at hu'
        exact h.unique u u' w hu hu'

/-- A lock is put back. -/
theorem Ok.put (h : Ok lock held s) {v : ν} {x : υ v} {k : κ}
    (hnow : held (s.control t) = some v) (hthen : held k = none) :
    Ok lock held (s.set v (some x) t k) := by
  have hheld : ∀ u w, held ((s.set v (some x) t k).control u) = some w →
      u ≠ t ∧ held (s.control u) = some w := by
    intro u w hu
    have hne : u ≠ t := by
      rintro rfl
      rw [State.set_control_self, hthen] at hu
      cases hu
    rw [State.set_control_of_ne hne] at hu
    exact ⟨hne, hu⟩
  refine ⟨fun w hw => ?_, fun u w hu => h.lock_of_held u w (hheld u w hu).2,
    fun u u' w hu hu' => h.unique u u' w (hheld u w hu).2 (hheld u' w hu').2⟩
  by_cases hwv : w = v
  · subst hwv
    rw [State.set_content_self]
    refine iff_of_false (Option.some_ne_none x) ?_
    rintro ⟨u, hu⟩
    obtain ⟨hne, hu⟩ := hheld u w hu
    exact hne (h.unique u t w hu hnow)
  · rw [State.set_content_of_ne hwv, h.empty_iff w hw]
    constructor
    · rintro ⟨u, hu⟩
      have hne : u ≠ t := by
        rintro rfl
        rw [hnow] at hu
        exact hwv (Option.some.inj hu).symm
      exact ⟨u, by rw [State.set_control_of_ne hne, hu]⟩
    · rintro ⟨u, hu⟩
      exact ⟨u, (hheld u w hu).2⟩

/-- A step keeps the lock with one thread, or in its variable. -/
theorem step (hcode : Lends code lock held) (h : Ok lock held s)
    (hs : MVar.step code s t = some (e, s')) : Ok lock held s' := by
  cases effect_step hs with
  | takes v next x hc hx =>
      obtain ⟨hnow, hthen⟩ := hcode.take _ v next hc
      by_cases hlock : lock v
      · exact h.take hlock hx hnow ((hthen x).1 hlock)
      · exact h.quiet hlock hnow ((hthen x).2 hlock)
  | puts v x next hc hx =>
      obtain ⟨hyes, hno, hthen⟩ := hcode.put _ v x next hc
      by_cases hlock : lock v
      · exact h.put (hyes hlock) hthen
      · exact h.quiet hlock (hno hlock) hthen
  | tries v next hc =>
      obtain ⟨hlock, hnow, hthen⟩ := hcode.tryTake _ v next hc
      exact h.quiet hlock hnow (hthen _)

/-- Whoever has a lock can go on. -/
theorem full_of_stuck (hcode : Lends code lock held) (h : Ok lock held s)
    (hstuck : ∀ t, MVar.step code s t = none) {v : ν} (hlock : lock v) :
    (∀ t, held (s.control t) ≠ some v) ∧ ∃ x, s.content v = some x := by
  have hnobody : ∀ t, held (s.control t) ≠ some v := by
    intro t ht
    have hempty := (h.empty_iff v hlock).mpr ⟨t, ht⟩
    cases hc : code (s.control t) with
    | take w next =>
        rw [(hcode.take _ w next hc).1] at ht
        cases ht
    | put w x next =>
        obtain ⟨hyes, hno, -⟩ := hcode.put _ w x next hc
        by_cases hw : lock w
        · have heq := (hyes hw).symm.trans ht
          cases heq
          obtain ⟨y, hy⟩ := MVar.full_of_stuck hc (hstuck t)
          rw [hempty] at hy
          cases hy
        · rw [hno hw] at ht
          cases ht
    | tryTake w next => exact not_tryTake_of_stuck (hstuck t) hc
    | finished =>
        rw [hcode.finished _ hc] at ht
        cases ht
  refine ⟨hnobody, Option.ne_none_iff_exists'.mp fun hempty => ?_⟩
  obtain ⟨t, ht⟩ := (h.empty_iff v hlock).mp hempty
  exact hnobody t ht

end Lends

end MVar
