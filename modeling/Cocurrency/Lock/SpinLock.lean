/-
# A spin lock (`SpinLock` of `javascript/shared_memory/web_workers.js`)

`lock` swaps `view[slot]` from 0 to 1, and tries again as long as another thread has done so;
`unlock` stores 0.  `critical(fn)` unlocks however `fn` ends.  The threads make calls of `critical`,
whose functions access the shared values other than `view[slot]`.

* `Simulates` : the lock word is 1 while a monitor has a holder;
* `critical_atomic` : calls of `critical` take effect at once, whether `fn` returns or throws, and
  at most one thread is in its function.  A thread may spin for ever, but as long as not all have
  returned somebody can do something else.
-/
import Cocurrency.Lib.MonitorAtomic
import Cocurrency.Lib.Run

namespace Lock

namespace SpinLock

open Monitor (Section Instr Atomic Deed deed)

/-- How `fn` ends. -/
inductive Outcome (ρ : Type*) where
  | returned (value : ρ)
  | threw (error : String)
  deriving DecidableEq

/-- What a thread does next: it calls `critical(fn)`, or has returned. -/
inductive Call (κ σ ρ : Type*) where
  | finished
  | critical (fn : Monitor.Body σ (Outcome ρ)) (next : Outcome ρ → κ)

/-- Where a thread is in `critical`. -/
inductive Phase (σ ρ : Type*) where
  /-- in the loop of `lock` -/
  | locking
  | running (rest : Monitor.Body σ (Outcome ρ))
  /-- at `unlock`, in the `finally` block -/
  | unlocking (result : Outcome ρ)

/-- A thread: where it is in its code, and where in `critical`. -/
structure Thread (κ σ ρ : Type*) where
  control : κ
  phase : Phase σ ρ

/-- `view[slot]`, the other values, and the threads. -/
structure State (τ κ σ ρ : Type*) where
  word : Int32
  shared : σ
  thread : τ → Thread κ σ ρ

/-- What a step shows. -/
inductive Event (τ ρ : Type*) where
  | locked (t : τ)
  | spins (t : τ)
  | accessed (t : τ)
  | returned (t : τ) (result : Outcome ρ)
  | unlocked (t : τ)
  deriving DecidableEq

section Step

variable {τ κ σ ρ : Type*} [DecidableEq τ]

/-- The lock is free, and all threads are at the beginning. -/
def start (v : σ) (control : τ → κ) : State τ κ σ ρ := ⟨0, v, fun t => ⟨control t, .locking⟩⟩

/-- Thread `t` goes on to `th`. -/
def State.setThread (s : State τ κ σ ρ) (t : τ) (th : Thread κ σ ρ) : State τ κ σ ρ :=
  { s with thread := Function.update s.thread t th }

/-- What `Atomics.compareExchange(view, slot, 0, 1)` returns, and the value that it leaves. -/
def compareExchange (word : Int32) : Int32 × Int32 := (word, if word = 0 then 1 else word)

/-- The next step of a thread; one that spins changes nothing. -/
def step (code : κ → Call κ σ ρ) (s : State τ κ σ ρ) (t : τ) :
    Option (Event τ ρ × State τ κ σ ρ) :=
  match code (s.thread t).control with
  | .finished => none
  | .critical fn next =>
      match (s.thread t).phase with
      | .locking =>
          let (old, word) := compareExchange s.word
          if old = 0 then
            some (.locked t,
              { s with word := word }.setThread t ⟨(s.thread t).control, .running fn⟩)
          else some (.spins t, { s with word := word })
      | .running (.access change more) =>
          some (.accessed t, { s with shared := change s.shared }.setThread t
            ⟨(s.thread t).control, .running (more s.shared)⟩)
      | .running (.done result) =>
          some (.returned t result, s.setThread t ⟨(s.thread t).control, .unlocking result⟩)
      | .unlocking result =>
          some (.unlocked t, { s with word := 0 }.setThread t ⟨next result, .locking⟩)

end Step

/-! ## The monitor -/

section Monitors

variable {τ κ σ ρ : Type*}

/-- A call of `critical`, as a section under a lock. -/
def critical (fn : Monitor.Body σ (Outcome ρ)) : Section σ (Outcome ρ) where
  guard _ := true
  body := fn
  notifies _ := false
  notifiesInside := false

/-- The code of a thread, as that of a thread under a lock. -/
def instr (τ : Type*) : Call κ σ ρ → Instr τ κ σ (Outcome ρ)
  | .finished => .finished
  | .critical fn next => .locked (critical fn) next

/-- Where the thread is in the monitor. -/
def Phase.toMonitor : Phase σ ρ → Monitor.Phase σ (Outcome ρ)
  | .locking => .outside
  | .running rest => .running rest
  | .unlocking result => .leaving result false

/-- The monitor is where the threads are, and has a holder while the word is 1. -/
structure Simulates (s : State τ κ σ ρ) (m : Monitor.State τ κ σ (Outcome ρ)) : Prop where
  shared : m.shared = s.shared
  thread : ∀ t, m.thread t = ⟨(s.thread t).control, (s.thread t).phase.toMonitor⟩
  word : s.word = 0 ∧ m.holder = none ∨ s.word = 1 ∧ m.holder ≠ none

/-- What is observed: the ends of the functions. -/
def observed : Event τ ρ → Option (Deed τ (Outcome ρ))
  | .returned t result => some (.returned t result)
  | _ => none

variable [DecidableEq τ] {code : κ → Call κ σ ρ} {s s' : State τ κ σ ρ}
  {m : Monitor.State τ κ σ (Outcome ρ)} {t : τ} {e : Event τ ρ}

omit [DecidableEq τ] in
theorem Simulates.start (v : σ) (control : τ → κ) :
    Simulates (SpinLock.start (ρ := ρ) v control) (.start v control) where
  shared := rfl
  thread _ := rfl
  word := Or.inl ⟨rfl, rfl⟩

/-- A thread goes on, in both systems. -/
theorem thread_update {mthread : τ → Monitor.Thread κ σ (Outcome ρ)} {thread : τ → Thread κ σ ρ}
    (h : ∀ u, mthread u = ⟨(thread u).control, (thread u).phase.toMonitor⟩) (t : τ) (k : κ)
    (phase : Phase σ ρ) (u : τ) :
    Function.update mthread t ⟨k, phase.toMonitor⟩ u =
      ⟨(Function.update thread t ⟨k, phase⟩ u).control,
        (Function.update thread t ⟨k, phase⟩ u).phase.toMonitor⟩ := by
  by_cases hu : u = t
  · rw [hu, Function.update_self, Function.update_self]
  · rw [Function.update_of_ne hu, Function.update_of_ne hu]
    exact h u

/-- The code of the threads of the monitor. -/
def monitorCode (τ : Type*) (code : κ → Call κ σ ρ) : κ → Instr τ κ σ (Outcome ρ) :=
  fun k => instr τ (code k)

theorem Simulates.answers (h : Simulates s m) (hs : step code s t = some (e, s')) :
    ∃ h' m', Run (Monitor.State.step (monitorCode τ code)) anyStep m h' m' ∧
      h'.filterMap deed = (observed e).toList ∧ Simulates s' m' := by
  obtain ⟨mshared, holder, mthread⟩ := m
  obtain ⟨hshared, hthread, hword⟩ := h
  simp only at hshared hthread hword
  subst hshared
  have ht := hthread t
  rw [step] at hs
  split at hs
  · cases hs
  · next fn next hcode =>
    have hlocked : monitorCode τ code (s.thread t).control = .locked (critical fn) next := by
      rw [monitorCode, hcode]
      rfl
    split at hs
    · next hphase =>
      rw [hphase] at ht
      rw [compareExchange] at hs
      simp only at hs
      split at hs
      · next hzero =>
        cases hs
        -- the lock is free
        obtain ⟨-, rfl⟩ : s.word = 0 ∧ holder = none := by
          rcases hword with hfree | ⟨hone, -⟩
          · exact hfree
          · rw [hzero] at hone
            exact absurd hone (by decide)
        refine ⟨[.acquired t, .passed t],
          ⟨s.shared, some t, Function.update mthread t ⟨(s.thread t).control, .running fn⟩⟩,
          run_of_replay _ [t, t] ?_, rfl, rfl, thread_update hthread t _ (.running fn),
          Or.inr ⟨rfl, by simp⟩⟩
        simp [replay, Monitor.State.step, ht, Phase.toMonitor, hlocked, Monitor.State.stepLocked,
          Monitor.State.acquire, Monitor.State.inPhase, Monitor.State.setThread, critical]
      · next hne =>
        cases hs
        refine ⟨[], _, .nil, rfl, rfl, hthread, ?_⟩
        rcases hword with ⟨hzero, -⟩ | ⟨hone, hheld⟩
        · exact absurd hzero hne
        · exact Or.inr ⟨hone, hheld⟩
    · next change more hphase =>
      cases hs
      rw [hphase] at ht
      refine ⟨[.accessed t], ⟨change s.shared, holder,
          Function.update mthread t ⟨(s.thread t).control, .running (more s.shared)⟩⟩,
        run_of_replay _ [t] ?_, rfl, rfl, thread_update hthread t _ (.running (more s.shared)),
        hword⟩
      simp [replay, Monitor.State.step, ht, Phase.toMonitor, hlocked, Monitor.State.stepLocked,
        Monitor.State.inPhase, Monitor.State.setThread]
    · next result hphase =>
      cases hs
      rw [hphase] at ht
      refine ⟨[.returned t result], ⟨s.shared, holder,
          Function.update mthread t ⟨(s.thread t).control, .leaving result false⟩⟩,
        run_of_replay _ [t] ?_, rfl, rfl, thread_update hthread t _ (.unlocking result), hword⟩
      simp [replay, Monitor.State.step, ht, Phase.toMonitor, hlocked, Monitor.State.stepLocked,
        Monitor.State.inPhase, Monitor.State.setThread, critical]
    · next result hphase =>
      cases hs
      rw [hphase] at ht
      refine ⟨[.released t], ⟨s.shared, none,
          Function.update mthread t ⟨next result, .outside⟩⟩,
        run_of_replay _ [t] ?_, rfl, rfl, thread_update hthread t _ .locking, Or.inl ⟨rfl, rfl⟩⟩
      simp [replay, Monitor.State.step, ht, Phase.toMonitor, hlocked, Monitor.State.stepLocked,
        Monitor.State.setThread]

/-! ## Every run -/

/-- The thread is in its function, or has not unlocked yet. -/
def Phase.Inside : Phase σ ρ → Prop
  | .locking => False
  | _ => True

theorem inside_iff {phase : Phase σ ρ} : phase.toMonitor.Inside ↔ phase.Inside := by
  cases phase <;> exact Iff.rfl

/-- Whoever is inside can go on, and so can anybody while the lock is free. -/
theorem step_of_critical {fn : Monitor.Body σ (Outcome ρ)} {next : Outcome ρ → κ}
    (hcode : code (s.thread t).control = .critical fn next)
    (h : s.word = 0 ∨ (s.thread t).phase.Inside) :
    ∃ e s', step code s t = some (e, s') ∧ e ≠ .spins t := by
  rw [step, hcode]
  cases hphase : (s.thread t).phase with
  | locking =>
      have hzero : s.word = 0 := by
        rcases h with hzero | hinside
        · exact hzero
        · rw [hphase] at hinside
          exact hinside.elim
      simp only [compareExchange, hzero, if_true]
      exact ⟨_, _, rfl, by simp⟩
  | running rest =>
      cases rest with
      | done result => exact ⟨_, _, rfl, by simp⟩
      | access change more => exact ⟨_, _, rfl, by simp⟩
  | unlocking result => exact ⟨_, _, rfl, by simp⟩

/-- **Calls of `critical`.**  What they do they do at once, in the order in which their functions
end, whether these return or throw; at most one thread is inside; and as long as not all threads
have returned, one of them can do something other than spin. -/
theorem critical_atomic (code : κ → Call κ σ ρ) (v : σ) (control : τ → κ)
    {h : List (Event τ ρ)} {s : State τ κ σ ρ}
    (hr : Run (step code) anyStep (start v control) h s) :
    (∃ a, Run (Atomic.step (monitorCode τ code)) anyStep (Atomic.start v control)
        (h.filterMap observed) a ∧ (s.word = 0 → s.shared = a.shared)) ∧
    (∀ t u, (s.thread t).phase.Inside → (s.thread u).phase.Inside → t = u) ∧
    ((∃ t, code (s.thread t).control ≠ .finished) →
      ∃ t e s', step code s t = some (e, s') ∧ e ≠ .spins t) := by
  obtain ⟨h', m, hm, hobs, hR⟩ := hr.refine (Monitor.State.step (monitorCode τ code))
    observed deed Simulates (Simulates.start v control)
    fun s t e s' m hR _ hs => hR.answers hs
  obtain ⟨a, ha, habstracts⟩ := Monitor.run_atomic (monitorCode τ code) v control hm
  have hinside : ∀ t, (m.thread t).phase.Inside ↔ (s.thread t).phase.Inside := fun t => by
    rw [hR.thread t]
    exact inside_iff
  refine ⟨⟨a, hobs ▸ ha, fun hzero => ?_⟩, fun t u ht hu => ?_, ?_⟩
  · have hfree : m.holder = none := by
      rcases hR.word with ⟨-, hfree⟩ | ⟨hone, -⟩
      · exact hfree
      · rw [hzero] at hone
        exact absurd hone (by decide)
    rw [habstracts.shared_of_free hfree, hR.shared]
  · exact habstracts.lockOk.unique ((hinside u).mpr hu) ((hinside t).mpr ht)
  · rintro ⟨t, ht⟩
    rcases hR.word with ⟨hzero, -⟩ | ⟨-, hheld⟩
    · cases hcode : code (s.thread t).control with
      | finished => exact absurd hcode ht
      | critical fn next => exact ⟨t, step_of_critical hcode (Or.inl hzero)⟩
    · -- whoever has the lock
      obtain ⟨u, hu⟩ := Option.ne_none_iff_exists'.mp hheld
      have huinside := (habstracts.lockOk u).mp hu
      cases hcode : code (s.thread u).control with
      | finished =>
          have houtside := habstracts.outside u fun call next hlocked => by
            rw [hR.thread u, monitorCode, hcode] at hlocked
            cases hlocked
          rw [houtside] at huinside
          exact huinside.elim
      | critical fn next =>
          exact ⟨u, step_of_critical hcode (Or.inr ((hinside u).mp huinside))⟩

end Monitors

/-- Two threads of which each makes a call; the second one throws. -/
def twice : Bool → Call Bool ℕ ℕ
  | true =>
      .critical (.access (· + 1) fun n => .done (if n = 0 then .returned n else .threw "full"))
        fun _ => false
  | false => .finished

/-- The second thread spins while the first one is in its function. -/
theorem critical_atomic_twice : ∃ (h : List (Event Bool ℕ)) (s : State Bool Bool ℕ ℕ),
    Run (step twice) anyStep (start 0 fun _ => true) h s ∧ .spins false ∈ h ∧
      .returned false (.threw "full") ∈ h ∧
    (∃ a, Run (Atomic.step (monitorCode Bool twice)) anyStep (Atomic.start 0 fun _ => true)
        (h.filterMap observed) a ∧ (s.word = 0 → s.shared = a.shared)) ∧
    (∀ t u, (s.thread t).phase.Inside → (s.thread u).phase.Inside → t = u) ∧
    ((∃ t, twice (s.thread t).control ≠ .finished) →
      ∃ t e s', step twice s t = some (e, s') ∧ e ≠ .spins t) := by
  have hr := run_of_replay (step twice) (s := start 0 fun _ => true)
    [true, false, true, true, true, false, false, false] rfl
  exact ⟨_, _, hr, by decide, by decide, critical_atomic twice 0 (fun _ => true) hr⟩

end SpinLock

end Lock
