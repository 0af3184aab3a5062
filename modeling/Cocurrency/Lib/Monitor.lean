/-
# Monitors

Threads that share a value under one lock, with a condition variable.  A critical section
(`Section`) has a guard, which a thread waits for, and a body of single accesses (`Body`); its
result decides whether it ends with a call of `notify_all`, which stands before or after the release
of the lock.

One step of a thread is the acquisition or the release of the lock, one check of the guard with the
`wait` that may follow, one access, or a `notify_all`.  In the atomic system (`Atomic.step`) a whole
section is one step, and is possible as soon as its guard holds.

* `State.step`, `Atomic.step` : the two systems;
* `State.Effect`, `State.effect_step` : what a step does;
* `State.LockOk` : the lock is held by the one thread that is inside.
-/
import Cocurrency.Lib.Run
import Mathlib.Logic.Function.Basic

namespace Monitor

/-! ## Programs -/

/-- What is done with the lock held, access by access; what follows depends on the value that the
access finds. -/
inductive Body (σ ρ : Type*) where
  | done (result : ρ)
  | access (change : σ → σ) (next : σ → Body σ ρ)

/-- The body, run at once. -/
def Body.run {σ ρ : Type*} : Body σ ρ → σ → ρ × σ
  | .done result, a => (result, a)
  | .access change next, a => (next a).run (change a)

/-- The number of its accesses. -/
def Body.length {σ ρ : Type*} : Body σ ρ → σ → ℕ
  | .done _, _ => 0
  | .access change next, a => (next a).length (change a) + 1

/-- A critical section. -/
structure Section (σ ρ : Type*) where
  /-- what is waited for -/
  guard : σ → Bool
  body : Body σ ρ
  /-- whether `notify_all` is called in the end -/
  notifies : ρ → Bool
  /-- it is called before the lock is released -/
  notifiesInside : Bool

/-- What a thread does next; where it goes on is a `κ`. -/
inductive Instr (τ κ σ ρ : Type*) where
  | finished
  | locked (call : Section σ ρ) (next : ρ → κ)
  /-- Waits until other threads have finished. -/
  | join (others : List τ) (next : κ)

/-- The end of the code. -/
def Instr.isFinished {τ κ σ ρ : Type*} : Instr τ κ σ ρ → Bool
  | .finished => true
  | _ => false

/-- Where a thread is in its section. -/
inductive Phase (σ ρ : Type*) where
  | outside
  | checking
  /-- In `wait`. -/
  | asleep (notified : Bool)
  | running (rest : Body σ ρ)
  /-- After the body, with the lock held; `pending` if `notify_all` is still to be called. -/
  | leaving (result : ρ) (pending : Bool)
  /-- The lock is released, and `notify_all` is still to be called. -/
  | left (result : ρ)

/-- A thread: where it is in its code, and where in the critical section. -/
structure Thread (κ σ ρ : Type*) where
  control : κ
  phase : Phase σ ρ

/-- The shared value, the holder of the lock, and the threads. -/
structure State (τ κ σ ρ : Type*) where
  shared : σ
  holder : Option τ
  thread : τ → Thread κ σ ρ

/-- What a step shows. -/
inductive Event (τ ρ : Type*) where
  | acquired (t : τ)
  | waits (t : τ)
  | passed (t : τ)
  | accessed (t : τ)
  /-- The body has come to its end. -/
  | returned (t : τ) (result : ρ)
  | notifiesAll (t : τ)
  | released (t : τ)
  | joined (t : τ)
  deriving DecidableEq

/-- `notify_all`, as it is seen by a thread. -/
def Thread.notify {κ σ ρ : Type*} (th : Thread κ σ ρ) : Thread κ σ ρ :=
  match th.phase with
  | .asleep _ => ⟨th.control, .asleep true⟩
  | _ => th

namespace State

variable {τ κ σ ρ : Type*}

/-- At first everyone is outside. -/
def start (a : σ) (control : τ → κ) : State τ κ σ ρ := ⟨a, none, fun t => ⟨control t, .outside⟩⟩

/-- `notify_all`. -/
def notifyAll (s : State τ κ σ ρ) : State τ κ σ ρ :=
  { s with thread := fun u => (s.thread u).notify }

variable [DecidableEq τ]

/-- Thread `t` goes on to `th`. -/
def setThread (s : State τ κ σ ρ) (t : τ) (th : Thread κ σ ρ) : State τ κ σ ρ :=
  { s with thread := Function.update s.thread t th }

/-- Thread `t` goes on with its section. -/
def inPhase (s : State τ κ σ ρ) (t : τ) (phase : Phase σ ρ) : State τ κ σ ρ :=
  s.setThread t ⟨(s.thread t).control, phase⟩

/-- The lock is taken, if it is free. -/
def acquire (s : State τ κ σ ρ) (t : τ) : Option (Event τ ρ × State τ κ σ ρ) :=
  match s.holder with
  | none => some (.acquired t, { s with holder := some t }.inPhase t .checking)
  | some _ => none

/-- The next step of thread `t` in a section. -/
def stepLocked (call : Section σ ρ) (next : ρ → κ) (s : State τ κ σ ρ) (t : τ) :
    Option (Event τ ρ × State τ κ σ ρ) :=
  match (s.thread t).phase with
  | .outside => s.acquire t
  | .checking =>
      if call.guard s.shared then some (.passed t, s.inPhase t (.running call.body))
      else some (.waits t, { s with holder := none }.inPhase t (.asleep false))
  | .asleep false => none
  | .asleep true => s.acquire t
  | .running (.access change more) =>
      some (.accessed t,
        { s with shared := change s.shared }.inPhase t (.running (more s.shared)))
  | .running (.done result) =>
      some (.returned t result, s.inPhase t (.leaving result (call.notifies result)))
  | .leaving result true =>
      if call.notifiesInside then
        some (.notifiesAll t, s.notifyAll.inPhase t (.leaving result false))
      else some (.released t, { s with holder := none }.inPhase t (.left result))
  | .leaving result false =>
      some (.released t, { s with holder := none }.setThread t ⟨next result, .outside⟩)
  | .left result => some (.notifiesAll t, s.notifyAll.setThread t ⟨next result, .outside⟩)

/-- The next step of thread `t`, unless it has finished, sleeps or waits. -/
def step (code : κ → Instr τ κ σ ρ) (s : State τ κ σ ρ) (t : τ) :
    Option (Event τ ρ × State τ κ σ ρ) :=
  match code (s.thread t).control with
  | .finished => none
  | .join others next =>
      if others.all fun u => (code (s.thread u).control).isFinished then
        some (.joined t, s.setThread t ⟨next, .outside⟩)
      else none
  | .locked call next => s.stepLocked call next t

end State

/-! ## Sections at once -/

/-- The shared value and where each thread is. -/
structure Atomic (τ κ σ : Type*) where
  shared : σ
  control : τ → κ

/-- What is done at once. -/
inductive Deed (τ ρ : Type*) where
  | returned (t : τ) (result : ρ)
  | joined (t : τ)
  deriving DecidableEq

namespace Atomic

variable {τ κ σ ρ : Type*}

/-- The system in which a critical section is one step. -/
def start (a : σ) (control : τ → κ) : Atomic τ κ σ := ⟨a, control⟩

variable [DecidableEq τ]

/-- Its next step: a whole critical section whose guard holds, or a join. -/
def step (code : κ → Instr τ κ σ ρ) (a : Atomic τ κ σ) (t : τ) :
    Option (Deed τ ρ × Atomic τ κ σ) :=
  match code (a.control t) with
  | .finished => none
  | .join others next =>
      if others.all fun u => (code (a.control u)).isFinished then
        some (.joined t, { a with control := Function.update a.control t next })
      else none
  | .locked call next =>
      if call.guard a.shared then
        let result := call.body.run a.shared
        some (.returned t result.1, ⟨result.2, Function.update a.control t (next result.1)⟩)
      else none

theorem control_self (control : τ → κ) (v : σ) (t : τ) (k : κ) :
    (⟨v, Function.update control t k⟩ : Atomic τ κ σ).control t = k :=
  Function.update_self t k control

theorem control_of_ne {control : τ → κ} {u t : τ} (hne : u ≠ t) (v : σ) (k : κ) :
    (⟨v, Function.update control t k⟩ : Atomic τ κ σ).control u = control u :=
  Function.update_of_ne hne k control

variable {code : κ → Instr τ κ σ ρ} {a a' : Atomic τ κ σ} {t : τ} {d : Deed τ ρ}

/-- A critical section at once. -/
theorem step_locked {call : Section σ ρ} {next : ρ → κ}
    (hcode : code (a.control t) = .locked call next) (h : step code a t = some (d, a')) :
    call.guard a.shared = true ∧ d = .returned t (call.body.run a.shared).1 ∧
      a' = ⟨(call.body.run a.shared).2,
        Function.update a.control t (next (call.body.run a.shared).1)⟩ := by
  rw [step, hcode] at h
  simp only at h
  split at h
  · next hguard =>
    cases h
    exact ⟨hguard, rfl, rfl⟩
  · cases h

/-- A join. -/
theorem step_join {others : List τ} {next : κ} (hcode : code (a.control t) = .join others next)
    (h : step code a t = some (d, a')) :
    (∀ u ∈ others, (code (a.control u)).isFinished = true) ∧ d = .joined t ∧
      a' = { a with control := Function.update a.control t next } := by
  rw [step, hcode] at h
  simp only at h
  split at h
  · next hall =>
    cases h
    exact ⟨List.all_eq_true.mp hall, rfl, rfl⟩
  · cases h

/-- A section whose guard holds is possible. -/
theorem guard_of_stuck {call : Section σ ρ} {next : ρ → κ}
    (hcode : code (a.control t) = .locked call next) (h : step code a t = none) :
    call.guard a.shared = false := by
  rw [step, hcode] at h
  simp only at h
  split at h
  · cases h
  · next hguard => exact Bool.eq_false_iff.mpr hguard

/-- A `join` is possible when the others have finished. -/
theorem join_of_stuck {others : List τ} {next : κ} (hcode : code (a.control t) = .join others next)
    (h : step code a t = none) : ∃ u ∈ others, (code (a.control u)).isFinished = false := by
  rw [step, hcode] at h
  simp only at h
  split at h
  · cases h
  · next hnot =>
    rw [List.all_eq_true] at hnot
    push Not at hnot
    obtain ⟨u, hu, hfin⟩ := hnot
    exact ⟨u, hu, Bool.eq_false_iff.mpr hfin⟩

end Atomic

/-- What of an event the atomic system does. -/
def deed {τ ρ : Type*} : Event τ ρ → Option (Deed τ ρ)
  | .returned t result => some (.returned t result)
  | .joined t => some (.joined t)
  | _ => none

/-! ## What a step does -/

section Steps

variable {τ κ σ ρ : Type*}

/-- The thread holds the lock. -/
def Phase.Inside : Phase σ ρ → Prop
  | .checking | .running _ | .leaving _ _ => True
  | _ => False

/-- The thread is still to call `notify_all`. -/
def Phase.Pending : Phase σ ρ → Prop
  | .leaving _ true | .left _ => True
  | _ => False

/-- A notified thread is where it was in its code. -/
theorem notify_control (th : Thread κ σ ρ) : th.notify.control = th.control := by
  rw [Thread.notify]
  split <;> rfl

/-- After `notify_all` no thread sleeps unnotified. -/
theorem notify_phase_ne (th : Thread κ σ ρ) : th.notify.phase ≠ .asleep false := by
  rw [Thread.notify]
  split
  · simp
  · next hphase => exact hphase false

/-- A notified thread is inside just if it was. -/
theorem notify_inside {th : Thread κ σ ρ} : th.notify.phase.Inside ↔ th.phase.Inside := by
  rw [Thread.notify]
  split
  · next hphase =>
    rw [hphase]
    exact Iff.rfl
  · exact Iff.rfl

variable [DecidableEq τ] (code : κ → Instr τ κ σ ρ)

namespace State

/-- What a step of thread `t` does. -/
inductive Effect (s : State τ κ σ ρ) (t : τ) : Event τ ρ → State τ κ σ ρ → Prop
  | acquired (call : Section σ ρ) (next : ρ → κ) : code (s.thread t).control = .locked call next →
      s.holder = none → (s.thread t).phase = .outside ∨ (s.thread t).phase = .asleep true →
      Effect s t (.acquired t) ({ s with holder := some t }.inPhase t .checking)
  | passed (call : Section σ ρ) (next : ρ → κ) : code (s.thread t).control = .locked call next →
      (s.thread t).phase = .checking → call.guard s.shared = true →
      Effect s t (.passed t) (s.inPhase t (.running call.body))
  | waits (call : Section σ ρ) (next : ρ → κ) : code (s.thread t).control = .locked call next →
      (s.thread t).phase = .checking → call.guard s.shared = false →
      Effect s t (.waits t) ({ s with holder := none }.inPhase t (.asleep false))
  | accessed (call : Section σ ρ) (next : ρ → κ) (change : σ → σ) (more : σ → Body σ ρ) :
      code (s.thread t).control = .locked call next →
      (s.thread t).phase = .running (.access change more) →
      Effect s t (.accessed t)
        ({ s with shared := change s.shared }.inPhase t (.running (more s.shared)))
  | returned (call : Section σ ρ) (next : ρ → κ) (result : ρ) :
      code (s.thread t).control = .locked call next →
      (s.thread t).phase = .running (.done result) →
      Effect s t (.returned t result) (s.inPhase t (.leaving result (call.notifies result)))
  | notifiesInside (call : Section σ ρ) (next : ρ → κ) (result : ρ) :
      code (s.thread t).control = .locked call next → (s.thread t).phase = .leaving result true →
      Effect s t (.notifiesAll t) (s.notifyAll.inPhase t (.leaving result false))
  | releasedEarly (call : Section σ ρ) (next : ρ → κ) (result : ρ) :
      code (s.thread t).control = .locked call next → (s.thread t).phase = .leaving result true →
      Effect s t (.released t) ({ s with holder := none }.inPhase t (.left result))
  | released (call : Section σ ρ) (next : ρ → κ) (result : ρ) :
      code (s.thread t).control = .locked call next → (s.thread t).phase = .leaving result false →
      Effect s t (.released t) ({ s with holder := none }.setThread t ⟨next result, .outside⟩)
  | notifiesOutside (call : Section σ ρ) (next : ρ → κ) (result : ρ) :
      code (s.thread t).control = .locked call next → (s.thread t).phase = .left result →
      Effect s t (.notifiesAll t) (s.notifyAll.setThread t ⟨next result, .outside⟩)
  | joined (others : List τ) (next : κ) : code (s.thread t).control = .join others next →
      (others.all fun u => (code (s.thread u).control).isFinished) = true →
      Effect s t (.joined t) (s.setThread t ⟨next, .outside⟩)

variable {code} {s s' : State τ κ σ ρ} {t : τ} {e : Event τ ρ}

/-- The lock is free. -/
theorem acquire_eq_some (h : s.acquire t = some (e, s')) :
    s.holder = none ∧ e = .acquired t ∧ s' = { s with holder := some t }.inPhase t .checking := by
  rw [acquire] at h
  split at h
  · next hfree =>
    cases h
    exact ⟨hfree, rfl, rfl⟩
  · cases h

/-- What a step at a critical section does. -/
theorem effect_stepLocked {call : Section σ ρ} {next : ρ → κ}
    (hcode : code (s.thread t).control = .locked call next)
    (h : s.stepLocked call next t = some (e, s')) : Effect code s t e s' := by
  rw [stepLocked] at h
  split at h
  · next hphase =>
    obtain ⟨hfree, rfl, rfl⟩ := acquire_eq_some h
    exact .acquired call next hcode hfree (Or.inl hphase)
  · next hphase =>
    split at h
    · next hguard =>
      cases h
      exact .passed call next hcode hphase hguard
    · next hguard =>
      cases h
      exact .waits call next hcode hphase (Bool.eq_false_iff.mpr hguard)
  · cases h
  · next hphase =>
    obtain ⟨hfree, rfl, rfl⟩ := acquire_eq_some h
    exact .acquired call next hcode hfree (Or.inr hphase)
  · next change more hphase =>
    cases h
    exact .accessed call next change more hcode hphase
  · next result hphase =>
    cases h
    exact .returned call next result hcode hphase
  · next result hphase =>
    split at h
    · cases h
      exact .notifiesInside call next result hcode hphase
    · cases h
      exact .releasedEarly call next result hcode hphase
  · next result hphase =>
    cases h
    exact .released call next result hcode hphase
  · next result hphase =>
    cases h
    exact .notifiesOutside call next result hcode hphase

/-- What a step does. -/
theorem effect_step (h : s.step code t = some (e, s')) : Effect code s t e s' := by
  rw [step] at h
  split at h
  · cases h
  · next others next hcode =>
    split at h
    · next hall =>
      cases h
      exact .joined others next hcode hall
    · cases h
  · next call next hcode => exact effect_stepLocked hcode h

theorem setThread_self (th : Thread κ σ ρ) : (s.setThread t th).thread t = th :=
  Function.update_self _ _ _

theorem setThread_of_ne {u : τ} (hu : u ≠ t) (th : Thread κ σ ρ) :
    (s.setThread t th).thread u = s.thread u :=
  Function.update_of_ne hu _ _

end State

/-! ## Who holds the lock -/

/-- The same, up to a notification. -/
def Thread.Like (th' th : Thread κ σ ρ) : Prop := th' = th ∨ th' = th.notify

namespace Thread.Like

variable {th th' : Thread κ σ ρ}

/-- It is where it was in its code. -/
theorem control (h : th'.Like th) : th'.control = th.control := by
  rcases h with rfl | rfl
  · rfl
  · exact notify_control th

/-- It is inside just if it was. -/
theorem inside_iff (h : th'.Like th) : th'.phase.Inside ↔ th.phase.Inside := by
  rcases h with rfl | rfl
  · exact Iff.rfl
  · exact notify_inside

/-- Only a sleeping thread is changed. -/
theorem phase_eq_iff (h : th'.Like th) {phase : Phase σ ρ}
    (hawake : ∀ notified, phase ≠ .asleep notified) : th'.phase = phase ↔ th.phase = phase := by
  rcases h with rfl | rfl
  · exact Iff.rfl
  · rw [Thread.notify]
    split
    · next notified hphase =>
      rw [hphase]
      exact iff_of_false (hawake true).symm (hawake notified).symm
    · exact Iff.rfl

end Thread.Like

namespace State

/-- The lock is held by the one thread that is inside. -/
def LockOk (s : State τ κ σ ρ) : Prop := ∀ t, s.holder = some t ↔ (s.thread t).phase.Inside

variable {code : κ → Instr τ κ σ ρ} {s s' : State τ κ σ ρ} {t u : τ} {e : Event τ ρ}

omit [DecidableEq τ] in
/-- The lock has one holder. -/
theorem LockOk.unique (hl : LockOk s) (ht : (s.thread t).phase.Inside)
    (hu : (s.thread u).phase.Inside) : u = t := by
  have hholds := (hl t).mpr ht
  rw [(hl u).mpr hu] at hholds
  exact Option.some.inj hholds

/-- What a step of thread `t` leaves as it is: the other threads, up to a notification. -/
def Others (s s' : State τ κ σ ρ) (t : τ) : Prop :=
  ∀ u, u ≠ t → (s'.thread u).Like (s.thread u)

/-- Nothing has happened to the others. -/
theorem others_setThread {s₁ : State τ κ σ ρ} (h : Others s s₁ t) (th : Thread κ σ ρ) :
    Others s (s₁.setThread t th) t := by
  intro u hu
  rw [setThread_of_ne hu]
  exact h u hu

/-- Nothing has happened to any thread before. -/
theorem others_of_thread {s₁ : State τ κ σ ρ} (h : s₁.thread = s.thread) (th : Thread κ σ ρ) :
    Others s (s₁.setThread t th) t :=
  others_setThread (fun u _ => Or.inl (congrFun h u)) th

/-- A step leaves the other threads alone, but for notifying them. -/
theorem Effect.others (h : Effect code s t e s') : Others s s' t := by
  have hnotify : Others s s.notifyAll t := fun u _ => Or.inr rfl
  cases h with
  | notifiesInside call next result hcode hphase => exact others_setThread hnotify _
  | notifiesOutside call next result hcode hphase => exact others_setThread hnotify _
  | acquired call next hcode hfree hphase => exact others_of_thread rfl _
  | accessed call next change more hcode hphase => exact others_of_thread rfl _
  | waits call next hcode hphase hguard => exact others_of_thread rfl _
  | releasedEarly call next result hcode hphase => exact others_of_thread rfl _
  | released call next result hcode hphase => exact others_of_thread rfl _
  | passed call next hcode hphase hguard => exact others_of_thread rfl _
  | returned call next result hcode hphase => exact others_of_thread rfl _
  | joined others next hcode hall => exact others_of_thread rfl _

omit [DecidableEq τ] in
/-- A step of a thread that has the lock, or gets it. -/
theorem LockOk.changes (hl : LockOk s) (hothers : Others s s' t)
    (ht : s.holder = none ∨ s.holder = some t)
    (hholder : s'.holder = some t ∧ (s'.thread t).phase.Inside ∨
      s'.holder = none ∧ ¬ (s'.thread t).phase.Inside) : LockOk s' := by
  intro u
  by_cases hu : u = t
  · rw [hu]
    rcases hholder with ⟨hsome, hinside⟩ | ⟨hnone, hnot⟩
    · exact iff_of_true hsome hinside
    · refine iff_of_false (fun hsome => ?_) hnot
      rw [hnone] at hsome
      cases hsome
  · rw [(hothers u hu).inside_iff, ← hl u]
    refine iff_of_false (fun hsome => hu ?_) fun hsome => hu ?_
    · rcases hholder with ⟨hnow, -⟩ | ⟨hnow, -⟩
      · rw [hnow] at hsome
        exact (Option.some.inj hsome).symm
      · rw [hnow] at hsome
        cases hsome
    · rcases ht with hbefore | hbefore
      · rw [hbefore] at hsome
        cases hsome
      · rw [hbefore] at hsome
        exact (Option.some.inj hsome).symm

omit [DecidableEq τ] in
/-- A step of a thread outside. -/
theorem LockOk.stays (hl : LockOk s) (hothers : Others s s' t) (hholder : s'.holder = s.holder)
    (hbefore : ¬ (s.thread t).phase.Inside) (hafter : ¬ (s'.thread t).phase.Inside) :
    LockOk s' := by
  intro u
  rw [hholder, hl u]
  by_cases hu : u = t
  · rw [hu]
    exact iff_of_false hbefore hafter
  · exact (hothers u hu).inside_iff.symm

/-- **The lock** is right after every step. -/
theorem LockOk.effect (hl : LockOk s) (hout : (∀ call next,
    code (s.thread t).control ≠ .locked call next) → (s.thread t).phase = .outside)
    (heffect : Effect code s t e s') : LockOk s' := by
  have hothers := heffect.others
  have hholds : (s.thread t).phase.Inside → s.holder = none ∨ s.holder = some t :=
    fun h => Or.inr ((hl t).mpr h)
  have hkeeps : (s.thread t).phase.Inside → s'.holder = s.holder →
      (s'.thread t).phase.Inside → LockOk s' := fun hbefore hholder hafter =>
    hl.changes hothers (hholds hbefore) (Or.inl ⟨hholder.trans ((hl t).mpr hbefore), hafter⟩)
  have hleaves : (s.thread t).phase.Inside → s'.holder = none →
      ¬ (s'.thread t).phase.Inside → LockOk s' := fun hbefore hholder hafter =>
    hl.changes hothers (hholds hbefore) (Or.inr ⟨hholder, hafter⟩)
  cases heffect with
  | acquired call next hcode hfree hphase =>
      apply hl.changes hothers (Or.inl hfree)
      exact Or.inl ⟨rfl, by rw [inPhase, setThread_self]; trivial⟩
  | passed call next hcode hphase hguard =>
      exact hkeeps (by rw [hphase]; trivial) rfl (by rw [inPhase, setThread_self]; trivial)
  | waits call next hcode hphase hguard =>
      exact hleaves (by rw [hphase]; trivial) rfl (by rw [inPhase, setThread_self]; exact id)
  | accessed call next change more hcode hphase =>
      exact hkeeps (by rw [hphase]; trivial) rfl (by rw [inPhase, setThread_self]; trivial)
  | returned call next result hcode hphase =>
      exact hkeeps (by rw [hphase]; trivial) rfl (by rw [inPhase, setThread_self]; trivial)
  | notifiesInside call next result hcode hphase =>
      exact hkeeps (by rw [hphase]; trivial) rfl (by rw [inPhase, setThread_self]; trivial)
  | releasedEarly call next result hcode hphase =>
      exact hleaves (by rw [hphase]; trivial) rfl (by rw [inPhase, setThread_self]; exact id)
  | released call next result hcode hphase =>
      exact hleaves (by rw [hphase]; trivial) rfl (by rw [setThread_self]; exact id)
  | notifiesOutside call next result hcode hphase =>
      exact hl.stays hothers rfl (by rw [hphase]; exact id) (by rw [setThread_self]; exact id)
  | joined others next hcode hall =>
      have hphase := hout fun call next' hlocked => by
        rw [hcode] at hlocked
        cases hlocked
      exact hl.stays hothers rfl (by rw [hphase]; exact id) (by rw [setThread_self]; exact id)

end State

end Steps

end Monitor
