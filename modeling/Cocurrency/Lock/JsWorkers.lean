/-
# Workers with a `SharedArrayBuffer` (`javascript/shared_memory/web_workers.js`)

A worker adds to `view[0]`, stores its id in a slot of its own, and notifies whoever waits on that
slot.  The main thread waits on one slot after the other until it is not 0, and loads `view[0]`.
`Atomics.wait` compares and goes to sleep at once, so that a store comes before it or is followed by
a `notify` that finds the sleeper.

`runNodeWorkers` has `slot id = id`, and waits on the slots of its workers.  In the browser's
version (`WORKER_CODE`) all workers store to slot 1, and slot 2 is waited on as well
(`workerCode_hangs`).

* `Ok` : what holds in every state;
* `workers_correct` : every run ends; the main thread comes to its end just if each slot that it
  waits on is some worker's, and then, if it waits on all slots of workers, it loads what all of
  them have added.
-/
import Cocurrency.Lib.Halting
import Cocurrency.Lib.MonitorHalts
import Mathlib.Data.Fintype.Option

namespace Lock

namespace JsWorkers

/-- Where a worker is. -/
inductive Phase where
  /-- in the loop, with so many turns to come -/
  | adding (left : ℕ)
  /-- at `Atomics.notify` -/
  | notifying
  | done
  deriving DecidableEq

/-- Where the main thread is. -/
inductive Main where
  /-- The slots that it is still to wait on. -/
  | waits (slots : List ℕ)
  /-- In `Atomics.wait` on the first slot. -/
  | asleep (slot : ℕ) (slots : List ℕ)
  | finished (finalCount : Int32)
  deriving DecidableEq

/-- The shared array, the workers and `main`. -/
structure State (ι : Type*) where
  view : ℕ → Int32
  worker : ι → Phase
  main : Main

/-- What a step shows. -/
inductive Event (ι : Type*) where
  | added (i : ι)
  | stored (i : ι)
  | notified (i : ι)
  /-- `Atomics.wait` returns at once. -/
  | notEqual
  | sleeps
  | loaded (finalCount : Int32)
  deriving DecidableEq

section Step

variable {ι : Type*} [DecidableEq ι]

/-- `Atomics.notify(view, slot, 1)`, as the main thread sees it. -/
def Main.notify (slot : ℕ) : Main → Main
  | .asleep x slots => if x = slot then .waits slots else .asleep x slots
  | m => m

/-- Worker `i` goes on. -/
def State.setWorker (s : State ι) (i : ι) (phase : Phase) : State ι :=
  { s with worker := Function.update s.worker i phase }

/-- The next step of a worker. -/
def stepWorker (id : ι → Int32) (slot : ι → ℕ) (s : State ι) (i : ι) : Option (Event ι × State ι) :=
  match s.worker i with
  | .adding (left + 1) =>
      some (.added i,
        { s with view := Function.update s.view 0 (s.view 0 + 1) }.setWorker i (.adding left))
  | .adding 0 =>
      some (.stored i,
        { s with view := Function.update s.view (slot i) (id i) }.setWorker i .notifying)
  | .notifying => some (.notified i, { s with main := s.main.notify (slot i) }.setWorker i .done)
  | .done => none

/-- The next step of the main thread. -/
def stepMain (s : State ι) : Option (Event ι × State ι) :=
  match s.main with
  | .waits (x :: slots) =>
      if s.view x = 0 then some (.sleeps, { s with main := .asleep x slots })
      else some (.notEqual, { s with main := .waits slots })
  | .waits [] => some (.loaded (s.view 0), { s with main := .finished (s.view 0) })
  | .asleep _ _ | .finished _ => none

/-- A step of a worker, or of the main thread. -/
def step (id : ι → Int32) (slot : ι → ℕ) (s : State ι) : Option ι → Option (Event ι × State ι)
  | some i => stepWorker id slot s i
  | none => stepMain s

/-- All slots are 0, and worker `i` is to add `turns i` times. -/
def start (turns : ι → ℕ) (slots : List ℕ) : State ι :=
  ⟨fun _ => 0, fun i => .adding (turns i), .waits slots⟩

end Step

/-! ## What holds in every state -/

/-- The worker has stored its id. -/
def Phase.Stored : Phase → Prop
  | .adding _ => False
  | _ => True

/-- The turns that are to come. -/
def Phase.left : Phase → ℕ
  | .adding left => left
  | _ => 0

@[simp] theorem left_adding (left : ℕ) : (Phase.adding left).left = left := rfl

/-- The slots that are still waited on. -/
def Main.rest : Main → List ℕ
  | .waits slots => slots
  | .asleep x slots => x :: slots
  | .finished _ => []

section Invariant

variable {ι : Type*} [Fintype ι]

/-- Some worker has stored to the slot. -/
def Filled (slot : ι → ℕ) (s : State ι) (x : ℕ) : Prop := ∃ i, slot i = x ∧ (s.worker i).Stored

/-- What holds in every state of a run with these slots to wait on. -/
structure Ok (slot : ι → ℕ) (turns : ι → ℕ) (slots : List ℕ) (s : State ι) : Prop where
  count : ∃ n, s.view 0 = Int32.ofNat n ∧ n + ∑ i, (s.worker i).left = ∑ i, turns i
  filled : ∀ x, x ≠ 0 → (s.view x ≠ 0 ↔ Filled slot s x)
  /-- The slots that are over, and those that are not. -/
  passed : ∃ past, slots = past ++ s.main.rest ∧ ∀ x ∈ past, Filled slot s x
  asleep : ∀ x rest, s.main = .asleep x rest →
    s.view x = 0 ∨ ∃ i, slot i = x ∧ s.worker i = .notifying
  finished : ∀ c, s.main = .finished c →
    (∀ i, slot i ∈ slots) → slot.Injective → c = Int32.ofNat (∑ i, turns i)

variable [DecidableEq ι] {id : ι → Int32} {slot turns : ι → ℕ} {slots : List ℕ} {s s' : State ι}
  {e : Event ι}

omit [DecidableEq ι] in
/-- At the start all is 0. -/
theorem Ok.start (slot turns : ι → ℕ) (slots : List ℕ) :
    Ok slot turns slots (start turns slots) where
  count := ⟨0, rfl, Nat.zero_add _⟩
  filled x _ := iff_of_false (fun h => h rfl) fun ⟨_, _, h⟩ => h
  passed := ⟨[], rfl, List.forall_mem_nil _⟩
  asleep x rest h := by cases h
  finished c h := by cases h

omit [Fintype ι] in
theorem worker_self (s : State ι) (i : ι) (phase : Phase) :
    (s.setWorker i phase).worker i = phase := Function.update_self _ _ _

omit [Fintype ι] in
theorem worker_of_ne {i j : ι} (hne : j ≠ i) (s : State ι) (phase : Phase) :
    (s.setWorker i phase).worker j = s.worker j := Function.update_of_ne hne _ _

/-- The step of a worker that leaves `left'` turns. -/
theorem sum_left (i : ι) (phase : Phase) :
    ∑ j, ((s.setWorker i phase).worker j).left + (s.worker i).left =
      ∑ j, (s.worker j).left + phase.left :=
  Monitor.sum_update_add Phase.left s.worker i phase

omit [Fintype ι] in
/-- A worker that had stored its id, or not, is where that is still so. -/
theorem filled_congr {s₁ : State ι} {i : ι} {phase : Phase} (hworker : s₁.worker = s.worker)
    (hstored : phase.Stored ↔ (s.worker i).Stored) (x : ℕ) :
    Filled slot (s₁.setWorker i phase) x ↔ Filled slot s x := by
  have hall : ∀ j, ((s₁.setWorker i phase).worker j).Stored ↔ (s.worker j).Stored := by
    intro j
    by_cases hj : j = i
    · rw [hj, worker_self]
      exact hstored
    · rw [worker_of_ne hj, hworker]
  exact exists_congr fun j => and_congr_right fun _ => hall j

omit [DecidableEq ι] in
/-- `main` does not wait at slot 0. -/
theorem Ok.ne_zero (h : Ok slot turns slots s) (hslots : 0 ∉ slots) {x : ℕ}
    (hx : x ∈ s.main.rest) : x ≠ 0 := by
  obtain ⟨past, hover, -⟩ := h.passed
  rintro rfl
  rw [hover] at hslots
  exact hslots (List.mem_append_right past hx)

/-- A worker adds. -/
theorem Ok.added {i : ι} {left : ℕ} (h : Ok slot turns slots s) (hslots : 0 ∉ slots)
    (hworker : s.worker i = .adding (left + 1)) :
    Ok slot turns slots
      ({ s with view := Function.update s.view 0 (s.view 0 + 1) }.setWorker i (.adding left)) := by
  have hfilled : ∀ x, Filled slot
      ({ s with view := Function.update s.view 0 (s.view 0 + 1) }.setWorker i (.adding left)) x ↔
      Filled slot s x := filled_congr rfl (by rw [hworker]; exact Iff.rfl)
  constructor
  · obtain ⟨n, hview, hsum⟩ := h.count
    refine ⟨n + 1, ?_, ?_⟩
    · show Function.update s.view 0 (s.view 0 + 1) 0 = _
      rw [Function.update_self, hview]
      exact (Int32.ofNat_add n 1).symm
    · have hleft := sum_left (s := s) i (.adding left)
      rw [hworker, left_adding, left_adding] at hleft
      show n + 1 + ∑ j, ((s.setWorker i (.adding left)).worker j).left = _
      omega
  · intro x hx
    rw [hfilled, ← h.filled x hx]
    show Function.update s.view 0 _ x ≠ 0 ↔ _
    rw [Function.update_of_ne hx]
  · obtain ⟨past, hover, hall⟩ := h.passed
    exact ⟨past, hover, fun x hx => (hfilled x).mpr (hall x hx)⟩
  · intro x rest hmain
    have hmain' : s.main = .asleep x rest := hmain
    have hx : x ≠ 0 := h.ne_zero hslots (by rw [hmain']; exact List.mem_cons_self)
    rcases h.asleep x rest hmain with hview | ⟨j, hj, hnotifying⟩
    · exact Or.inl ((Function.update_of_ne hx _ _).trans hview)
    · refine Or.inr ⟨j, hj, ?_⟩
      rw [worker_of_ne]
      · exact hnotifying
      · rintro rfl
        rw [hworker] at hnotifying
        cases hnotifying
  · exact h.finished

/-- A worker stores its id in its slot. -/
theorem Ok.stored {i : ι} (h : Ok slot turns slots s) (hslot : slot i ≠ 0) (hid : id i ≠ 0)
    (hworker : s.worker i = .adding 0) :
    Ok slot turns slots
      ({ s with view := Function.update s.view (slot i) (id i) }.setWorker i .notifying) := by
  have hmono : ∀ x, Filled slot s x → Filled slot
      ({ s with view := Function.update s.view (slot i) (id i) }.setWorker i .notifying) x := by
    rintro x ⟨j, hj, hstored⟩
    refine ⟨j, hj, ?_⟩
    rw [worker_of_ne]
    · exact hstored
    · rintro rfl
      rw [hworker] at hstored
      exact hstored
  constructor
  · obtain ⟨n, hview, hsum⟩ := h.count
    refine ⟨n, (Function.update_of_ne hslot.symm _ _).trans hview, ?_⟩
    have hleft := sum_left (s := s) i .notifying
    rw [hworker] at hleft
    show n + ∑ j, ((s.setWorker i .notifying).worker j).left = _
    exact (congrArg (n + ·) hleft).trans hsum
  · intro x hx
    show Function.update s.view (slot i) (id i) x ≠ 0 ↔ _
    by_cases hxi : x = slot i
    · rw [hxi, Function.update_self]
      exact iff_of_true hid ⟨i, rfl, by rw [worker_self]; trivial⟩
    · rw [Function.update_of_ne hxi, h.filled x hx]
      refine ⟨hmono x, ?_⟩
      rintro ⟨j, hj, hstored⟩
      refine ⟨j, hj, ?_⟩
      rw [worker_of_ne] at hstored
      · exact hstored
      · rintro rfl
        exact hxi hj.symm
  · obtain ⟨past, hover, hall⟩ := h.passed
    exact ⟨past, hover, fun x hx => hmono x (hall x hx)⟩
  · intro x rest hmain
    by_cases hxi : x = slot i
    · exact Or.inr ⟨i, hxi.symm, worker_self _ _ _⟩
    · rcases h.asleep x rest hmain with hview | ⟨j, hj, hnotifying⟩
      · exact Or.inl ((Function.update_of_ne hxi _ _).trans hview)
      · refine Or.inr ⟨j, hj, ?_⟩
        rw [worker_of_ne]
        · exact hnotifying
        · rintro rfl
          exact hxi hj.symm
  · exact h.finished

/-- A notification that finds a sleeper, or not. -/
theorem notify_cases (m : Main) (x : ℕ) :
    (∃ rest, m = .asleep x rest ∧ m.notify x = .waits rest) ∨
      m.notify x = m ∧ ∀ rest, m ≠ .asleep x rest := by
  cases m with
  | waits slots => exact Or.inr ⟨rfl, fun rest h => by cases h⟩
  | finished c => exact Or.inr ⟨rfl, fun rest h => by cases h⟩
  | asleep y slots =>
      by_cases hy : y = x
      · exact Or.inl ⟨slots, by rw [hy], if_pos hy⟩
      · refine Or.inr ⟨if_neg hy, fun rest h => hy ?_⟩
        cases h
        rfl

/-- A worker notifies. -/
theorem Ok.notified {i : ι} (h : Ok slot turns slots s) (hworker : s.worker i = .notifying) :
    Ok slot turns slots ({ s with main := s.main.notify (slot i) }.setWorker i .done) := by
  have hfilled : ∀ x, Filled slot ({ s with main := s.main.notify (slot i) }.setWorker i .done) x ↔
      Filled slot s x := filled_congr rfl (by rw [hworker]; exact Iff.rfl)
  constructor
  · obtain ⟨n, hview, hsum⟩ := h.count
    refine ⟨n, hview, ?_⟩
    have hleft := sum_left (s := s) i .done
    rw [hworker] at hleft
    show n + ∑ j, ((s.setWorker i .done).worker j).left = _
    exact (congrArg (n + ·) hleft).trans hsum
  · exact fun x hx => (h.filled x hx).trans (hfilled x).symm
  · obtain ⟨past, hover, hall⟩ := h.passed
    rcases notify_cases s.main (slot i) with ⟨rest, hmain, hnotify⟩ | ⟨hnotify, -⟩
    · refine ⟨past ++ [slot i], ?_, fun x hx => (hfilled x).mpr ?_⟩
      · show slots = past ++ [slot i] ++ (s.main.notify (slot i)).rest
        rw [hnotify, hover, hmain, List.append_assoc]
        rfl
      · rcases List.mem_append.mp hx with hx | hx
        · exact hall x hx
        · rw [List.mem_singleton.mp hx]
          exact ⟨i, rfl, by rw [hworker]; trivial⟩
    · refine ⟨past, ?_, fun x hx => (hfilled x).mpr (hall x hx)⟩
      show slots = past ++ (s.main.notify (slot i)).rest
      rw [hnotify]
      exact hover
  · intro x rest hmain
    have hnow : s.main.notify (slot i) = .asleep x rest := hmain
    rcases notify_cases s.main (slot i) with ⟨rest', -, hnotify⟩ | ⟨hnotify, hnot⟩
    · rw [hnotify] at hnow
      cases hnow
    · rw [hnotify] at hnow
      rcases h.asleep x rest hnow with hview | ⟨j, hj, hnotifying⟩
      · exact Or.inl hview
      · refine Or.inr ⟨j, hj, ?_⟩
        rw [worker_of_ne]
        · exact hnotifying
        · rintro rfl
          exact hnot rest (hj ▸ hnow)
  · intro c hmain
    have hnow : s.main.notify (slot i) = .finished c := hmain
    rcases notify_cases s.main (slot i) with ⟨rest', -, hnotify⟩ | ⟨hnotify, -⟩
    · rw [hnotify] at hnow
      cases hnow
    · rw [hnotify] at hnow
      exact h.finished c hnow

omit [DecidableEq ι] in
/-- A step of the main thread. -/
theorem Ok.main (h : Ok slot turns slots s) (hslots : 0 ∉ slots)
    (hs : stepMain s = some (e, s')) : Ok slot turns slots s' := by
  have hpassed := h.passed
  rw [stepMain] at hs
  split at hs
  · next x rest hmain =>
    have hx : x ≠ 0 := h.ne_zero hslots (by rw [hmain]; exact List.mem_cons_self)
    split at hs
    · next hzero =>
      cases hs
      refine ⟨h.count, h.filled, ?_, fun y rest' hy => ?_, fun c hc => by cases hc⟩
      · rw [hmain] at hpassed
        exact hpassed
      · cases hy
        exact Or.inl hzero
    · next hne =>
      cases hs
      refine ⟨h.count, h.filled, ?_, fun y rest' hy => (by cases hy), fun c hc => by cases hc⟩
      obtain ⟨past, hover, hall⟩ := hpassed
      refine ⟨past ++ [x], ?_, fun y hy => ?_⟩
      · rw [hover, hmain, List.append_assoc]
        rfl
      · rcases List.mem_append.mp hy with hy | hy
        · exact hall y hy
        · rw [List.mem_singleton.mp hy]
          exact (h.filled x hx).mp hne
  · next hmain =>
    cases hs
    rw [hmain] at hpassed
    refine ⟨h.count, h.filled, hpassed, fun y rest' hy => (by cases hy), fun c hc hall hinj => ?_⟩
    cases hc
    obtain ⟨past, hover, hfilled⟩ := hpassed
    rw [show Main.rest (.waits []) = [] from rfl, List.append_nil] at hover
    -- every worker has stored its id, and so has added before
    have hleft : ∑ i, (s.worker i).left = 0 := by
      apply Finset.sum_eq_zero
      intro i _
      obtain ⟨j, hj, hstored⟩ := hfilled (slot i) (hover ▸ hall i)
      rw [hinj hj] at hstored
      cases hworker : s.worker i with
      | adding left =>
          rw [hworker] at hstored
          exact hstored.elim
      | _ => rfl
    obtain ⟨n, hview, hsum⟩ := h.count
    rw [hview, ← hsum, hleft]
    rfl
  · cases hs
  · cases hs

/-- **The step lemma**. -/
theorem Ok.step (h : Ok slot turns slots s) (hslots : 0 ∉ slots) (hslot : ∀ i, slot i ≠ 0)
    (hid : ∀ i, id i ≠ 0) {a : Option ι} (hs : step id slot s a = some (e, s')) :
    Ok slot turns slots s' := by
  cases a with
  | none => exact h.main hslots hs
  | some i =>
      rw [JsWorkers.step, stepWorker] at hs
      split at hs
      · next left hworker =>
        cases hs
        exact h.added hslots hworker
      · next hworker =>
        cases hs
        exact h.stored (hslot i) (hid i) hworker
      · next hworker =>
        cases hs
        exact h.notified hworker
      · cases hs

/-! ## Every run -/

/-- The steps that a worker has to make. -/
def Phase.toDo : Phase → ℕ
  | .adding left => left + 2
  | .notifying => 1
  | .done => 0

/-- The steps that the main thread has to make, at most; a notification is one of a worker's. -/
def Main.toDo : Main → ℕ
  | .waits slots => 2 * slots.length + 1
  | .asleep _ slots => 2 * slots.length + 2
  | .finished _ => 0

/-- To notify `main` does not take it back. -/
theorem notify_toDo_le (m : Main) (x : ℕ) : (m.notify x).toDo ≤ m.toDo := by
  rcases notify_cases m x with ⟨rest, rfl, hnotify⟩ | ⟨hnotify, -⟩
  · rw [hnotify]
    exact Nat.le_succ _
  · rw [hnotify]

/-- The step of a worker to a phase with fewer steps to come. -/
theorem toDo_lt {i : ι} {phase : Phase} {m : Main} (hphase : phase.toDo < (s.worker i).toDo)
    (hmain : m.toDo ≤ s.main.toDo) :
    ∑ j, (Function.update s.worker i phase j).toDo + m.toDo <
      ∑ j, (s.worker j).toDo + s.main.toDo := by
  have hsum := Monitor.sum_update_add Phase.toDo s.worker i phase
  omega

/-- Every run comes to an end. -/
theorem halts (id : ι → Int32) (slot : ι → ℕ) (s : State ι) : Halts (step id slot) s := by
  apply halts_of_measure (fun _ => True) (fun s => ∑ i, (s.worker i).toDo + s.main.toDo) _ trivial
  intro s a e s' _ hs
  refine ⟨trivial, ?_⟩
  cases a with
  | some i =>
      rw [step, stepWorker] at hs
      split at hs
      · next left hworker =>
        cases hs
        exact toDo_lt (by rw [hworker]; exact Nat.lt_succ_self _) (Nat.le_refl _)
      · next hworker =>
        cases hs
        exact toDo_lt (by rw [hworker]; exact Nat.lt_succ_self _) (Nat.le_refl _)
      · next hworker =>
        cases hs
        have hlt : Phase.done.toDo < (s.worker i).toDo := by
          rw [hworker]
          exact Nat.one_pos
        exact toDo_lt hlt (notify_toDo_le _ _)
      · cases hs
  | none =>
      rw [step, stepMain] at hs
      split at hs
      · next x slots hmain =>
        split at hs
        · cases hs
          apply Nat.add_lt_add_left
          rw [hmain]
          exact Nat.lt_succ_self _
        · cases hs
          apply Nat.add_lt_add_left
          rw [hmain]
          show 2 * slots.length + 1 < 2 * (slots.length + 1) + 1
          omega
      · next hmain =>
        cases hs
        apply Nat.add_lt_add_left
        rw [hmain]
        exact Nat.succ_pos _
      · cases hs
      · cases hs

/-- Where it comes to a halt: the workers have returned, and the main thread has loaded the counter
or waits on a slot of nobody's. -/
theorem Ok.stuck (h : Ok slot turns slots s) (hslots : 0 ∉ slots)
    (hstuck : ∀ a, JsWorkers.step id slot s a = none) :
    (∀ i, s.worker i = .done) ∧
      ((∃ c, s.main = .finished c) ↔ ∀ x ∈ slots, ∃ i, slot i = x) := by
  have hdone : ∀ i, s.worker i = .done := by
    intro i
    have hnone := hstuck (some i)
    rw [JsWorkers.step, stepWorker] at hnone
    split at hnone
    · cases hnone
    · cases hnone
    · cases hnone
    · next hworker => exact hworker
  obtain ⟨past, hover, hfilled⟩ := h.passed
  refine ⟨hdone, ?_⟩
  constructor
  · rintro ⟨c, hmain⟩ x hx
    rw [hover, hmain, show Main.rest (.finished c) = [] from rfl, List.append_nil] at hx
    obtain ⟨i, hi, -⟩ := hfilled x hx
    exact ⟨i, hi⟩
  · intro hall
    have hnone := hstuck none
    rw [JsWorkers.step, stepMain] at hnone
    split at hnone
    · split at hnone <;> cases hnone
    · cases hnone
    · next x rest hmain =>
      -- a worker has stored to this slot, and notified afterwards
      have hmem : x ∈ s.main.rest := by
        rw [hmain]
        exact List.mem_cons_self
      obtain ⟨i, hi⟩ := hall x (by rw [hover]; exact List.mem_append_right past hmem)
      have hview : s.view x ≠ 0 :=
        (h.filled x (h.ne_zero hslots hmem)).mpr ⟨i, hi, by rw [hdone i]; trivial⟩
      rcases h.asleep x rest hmain with hzero | ⟨j, -, hnotifying⟩
      · exact absurd hzero hview
      · rw [hdone j] at hnotifying
        cases hnotifying
    · next c hmain => exact ⟨c, hmain⟩

/-- `WORKER_CODE`: when all workers store to slot 1, the main thread waits on slot 2 for ever. -/
theorem workerCode_hangs (turns : ι → ℕ) (hid : ∀ i, id i ≠ 0) {h : List (Event ι)} {s : State ι}
    (hr : Run (step id fun _ => 1) anyStep (start turns [1, 2]) h s) (c : Int32) :
    s.main ≠ .finished c := by
  intro hmain
  have hok : Ok (fun _ => 1) turns [1, 2] s :=
    hr.invariant (fun _ s => Ok (fun _ => 1) turns [1, 2] s) (Ok.start _ turns [1, 2])
      fun _ _ _ _ _ h _ hs => h.step (by decide) (fun _ => one_ne_zero) hid hs
  obtain ⟨past, hover, hfilled⟩ := hok.passed
  rw [hmain, show Main.rest (.finished c) = [] from rfl, List.append_nil] at hover
  obtain ⟨i, hi, -⟩ := hfilled 2 (by rw [← hover]; decide)
  cases hi

end Invariant

end JsWorkers

end Lock
