/-
# Calls of the bounded buffer that fail (`python/shared_memory_lock/thread_producer_consumer.py`)

In `put` and in `get` the `print` stands between the change of the buffer and the `notify_all`, and
it formats the item with `:>4`.  An item that does not support this is put, or taken, by a call that
raises and notifies nobody.

While a thread holds the lock no other one makes a step (`step_of_held`), so a call is looked at
from where it has the lock to where it releases it (`turn`).  It is all or nothing, with a
notification, just if it has to wait or its item can be formatted (`atomic_iff`).
-/
import Cocurrency.Lock.BoundedBuffer

namespace Lock

namespace BoundedBuffer

namespace State

variable {τ α : Type*} [DecidableEq τ]

/-- While a thread holds the lock, no other one makes a step. -/
theorem step_of_held {maxsize : ℕ} {format : α → Option String} {s : State τ α} {t u : τ}
    (hl : LockOk s) (hheld : s.cond = some t) (hne : u ≠ t) : s.step maxsize format u = none := by
  have houtside : ¬ (s.thread u).phase.Inside := by
    intro hinside
    have hu := (hl u).mpr hinside
    rw [hheld] at hu
    exact hne (Option.some.inj hu).symm
  have hacquire : s.acquire u = none := by
    unfold acquire
    rw [hheld]
  unfold step
  cases hphase : (s.thread u).phase with
  | outside =>
      dsimp only
      split
      · rfl
      · exact hacquire
  | asleep notified =>
      cases notified with
      | false => rfl
      | true => exact hacquire
  | checking | ready | changed item | printed item | notified item | failed =>
      rw [hphase] at houtside
      exact absurd trivial houtside

/-! ## A turn -/

/-- The steps of thread `t`, at most `n`, until the lock is free. -/
def turn (maxsize : ℕ) (format : α → Option String) (t : τ) :
    ℕ → State τ α → List (Event τ α) × State τ α
  | 0, s => ([], s)
  | n + 1, s =>
      match s.step maxsize format t with
      | none => ([], s)
      | some (e, s') =>
          if s'.cond = none then ([e], s')
          else
            let rest := turn maxsize format t n s'
            (e :: rest.1, rest.2)

/-- The lock is free, and thread `t` is about to take it: in the beginning of a call, or in the
loop after it has been notified. -/
def entering (s : State τ α) (t : τ) (program : Program α) (woken : Bool) : State τ α :=
  { s with cond := none }.setThread t ⟨program, if woken then .asleep true else .outside⟩

/-- If a call has raised, the buffer is as it was before; if the buffer has changed, everybody who
was waiting has been notified. -/
structure Atomic (s : State τ α) (t : τ) (es : List (Event τ α)) (s' : State τ α) : Prop where
  unchanged : .raised t ∈ es → s'.buf = s.buf
  notified : s'.buf ≠ s.buf →
    .notifiesAll t ∈ es ∧ ∀ u, (s'.thread u).phase ≠ .asleep false

/-- What thread `t` does in one turn, from the moment it takes the lock: a call of `put` or `get`
up to its end, or up to its next `wait`. -/
def TurnAtomic (maxsize : ℕ) (format : α → Option String) (s : State τ α) (t : τ)
    (program : Program α) (woken : Bool) : Prop :=
  Atomic s t (turn maxsize format t 6 (s.entering t program woken)).1
    (turn maxsize format t 6 (s.entering t program woken)).2

variable (maxsize : ℕ) (format : α → Option String) (s : State τ α) (t : τ) (woken : Bool)

/-- The thread holds the lock. -/
def holding (buf : List α) (th : Thread α) : State τ α :=
  { s with buf := buf, cond := some t }.setThread t th

/-- A thread enters. -/
theorem step_entering {program : Program α} (hprogram : program ≠ .finished) :
    (s.entering t program woken).step maxsize format t =
      some (.acquired t, s.holding t s.buf ⟨program, .checking⟩) := by
  cases program with
  | finished => exact absurd rfl hprogram
  | put item next | get next =>
      cases woken <;> simp [entering, holding, step, setThread, acquire, goOn]

/-- It goes on, or waits. -/
theorem step_checking (buf : List α) (program : Program α) :
    (s.holding t buf ⟨program, .checking⟩).step maxsize format t =
      if blocks maxsize buf program then
        some (.waits t, { s with buf := buf, cond := none }.setThread t ⟨program, .asleep false⟩)
      else some (.passed t, s.holding t buf ⟨program, .ready⟩) := by
  simp [holding, step, setThread, goOn]

/-- `put` appends the item. -/
theorem step_put (buf : List α) (item : α) (next : Program α) :
    (s.holding t buf ⟨.put item next, .ready⟩).step maxsize format t =
      some (.appended t item,
        s.holding t (buf ++ [item]) ⟨.put item next, .changed item⟩) := by
  simp [holding, step, setThread, goOn]

/-- `get` takes the first item. -/
theorem step_get (item : α) (rest : List α) (next : α → Program α) :
    (s.holding t (item :: rest) ⟨.get next, .ready⟩).step maxsize format t =
      some (.popped t item, s.holding t rest ⟨.get next, .changed item⟩) := by
  simp [holding, step, setThread, goOn]

/-- The item cannot be printed: an exception. -/
theorem step_changed_of_none (buf : List α) (program : Program α) {item : α}
    (hformat : format item = none) :
    (s.holding t buf ⟨program, .changed item⟩).step maxsize format t =
      some (.fails t, s.holding t buf ⟨program, .failed⟩) := by
  simp [holding, step, setThread, goOn, line, hformat]

/-- The item is printed. -/
theorem step_changed_of_some (buf : List α) (program : Program α) {item : α} {text : String}
    (hformat : format item = some text) :
    ∃ printed, (s.holding t buf ⟨program, .changed item⟩).step maxsize format t =
      some (.prints t printed, s.holding t buf ⟨program, .printed item⟩) := by
  cases program <;> simp [holding, step, setThread, goOn, line, hformat]

/-- Everybody who sleeps is notified. -/
def notifyAll : State τ α := { s with thread := fun u => (s.thread u).notify }

/-- It notifies. -/
theorem step_printed (buf : List α) (program : Program α) (item : α) :
    (s.holding t buf ⟨program, .printed item⟩).step maxsize format t =
      some (.notifiesAll t, s.notifyAll.holding t buf ⟨program, .notified item⟩) := by
  have hthread : (s.holding t buf ⟨program, .printed item⟩).thread t =
      ⟨program, .printed item⟩ := by
    simp [holding, setThread]
  have hnotify : ∀ u, u ≠ t →
      ((s.holding t buf ⟨program, .printed item⟩).thread u).notify = (s.thread u).notify := by
    intro u hu
    simp [holding, setThread, Function.update_of_ne hu]
  rw [step, hthread]
  simp only [goOn, setThread, holding, notifyAll, Option.some.injEq, Prod.mk.injEq, true_and,
    State.mk.injEq]
  funext u
  by_cases hu : u = t
  · subst hu
    simp [Thread.notify]
  · rw [Function.update_of_ne hu, Function.update_of_ne hu, Function.update_of_ne hu]

/-- The exception leaves the block, and no one is notified. -/
theorem step_failed (buf : List α) (program : Program α) :
    (s.holding t buf ⟨program, .failed⟩).step maxsize format t =
      some (.raised t,
        { s with buf := buf, cond := none }.setThread t ⟨.finished, .outside⟩) := by
  simp [holding, step, setThread]

/-- The call is over; `next` is what the thread goes on with. -/
def leaving (buf : List α) (next : Program α) : State τ α :=
  { s with buf := buf, cond := none }.setThread t ⟨next, .outside⟩

/-- `put` leaves the block. -/
theorem step_notified_put (buf : List α) (item item' : α) (next : Program α) :
    (s.holding t buf ⟨.put item next, .notified item'⟩).step maxsize format t =
      some (.returned t none, s.leaving t buf next) := by
  simp [holding, leaving, step, setThread]

/-- `get` leaves the block with the item. -/
theorem step_notified_get (buf : List α) (item : α) (next : α → Program α) :
    (s.holding t buf ⟨.get next, .notified item⟩).step maxsize format t =
      some (.returned t (some item), s.leaving t buf (next item)) := by
  simp [holding, leaving, step, setThread]

variable {maxsize format s t woken}

/-- While the thread holds the lock, its turn goes on. -/
theorem turn_holding {s₁ s₂ : State τ α} {e : Event τ α} {buf : List α} {th : Thread α} (n : ℕ)
    (hstep : s₁.step maxsize format t = some (e, s₂.holding t buf th)) :
    turn maxsize format t (n + 1) s₁ =
      (e :: (turn maxsize format t n (s₂.holding t buf th)).1,
        (turn maxsize format t n (s₂.holding t buf th)).2) := by
  have hheld : (s₂.holding t buf th).cond ≠ none := by
    simp [holding, setThread]
  rw [turn, hstep]
  exact if_neg hheld

/-- A turn ends with a step after which the lock is free. -/
theorem turn_free {s₁ s₂ : State τ α} {e : Event τ α} (n : ℕ)
    (hstep : s₁.step maxsize format t = some (e, s₂)) (hfree : s₂.cond = none) :
    turn maxsize format t (n + 1) s₁ = ([e], s₂) := by
  rw [turn, hstep]
  exact if_pos hfree

/-- A call that has to wait leaves the buffer as it is. -/
theorem turn_of_blocks {program : Program α} (hprogram : program ≠ .finished)
    (hblocks : blocks maxsize s.buf program = true) :
    turn maxsize format t 6 (s.entering t program woken) =
      ([.acquired t, .waits t],
        { s with cond := none }.setThread t ⟨program, .asleep false⟩) := by
  have hwaits : (s.holding t s.buf ⟨program, .checking⟩).step maxsize format t =
      some (.waits t, { s with cond := none }.setThread t ⟨program, .asleep false⟩) := by
    rw [step_checking, if_pos hblocks]
  rw [turn_holding 5 (step_entering maxsize format s t woken hprogram), turn_free 4 hwaits rfl]

/-- Otherwise it goes on to the change of the buffer. -/
theorem turn_of_passes {program : Program α} (hprogram : program ≠ .finished)
    (hpasses : blocks maxsize s.buf program = false) :
    turn maxsize format t 6 (s.entering t program woken) =
      (.acquired t :: .passed t ::
          (turn maxsize format t 4 (s.holding t s.buf ⟨program, .ready⟩)).1,
        (turn maxsize format t 4 (s.holding t s.buf ⟨program, .ready⟩)).2) := by
  have hpassed : (s.holding t s.buf ⟨program, .checking⟩).step maxsize format t =
      some (.passed t, s.holding t s.buf ⟨program, .ready⟩) := by
    rw [step_checking, hpasses]
    rfl
  rw [turn_holding 5 (step_entering maxsize format s t woken hprogram), turn_holding 4 hpassed]

/-- After the change, a `print` that fails is the end of the call. -/
theorem turn_changed_of_none {program : Program α} {item : α} (buf : List α)
    (hformat : format item = none) :
    turn maxsize format t 3 (s.holding t buf ⟨program, .changed item⟩) =
      ([.fails t, .raised t], s.leaving t buf .finished) := by
  rw [turn_holding 2 (step_changed_of_none maxsize format s t buf program hformat),
    turn_free 1 (step_failed maxsize format s t buf program) rfl]
  rfl

/-- Otherwise everybody is notified before the call returns. -/
theorem turn_changed_of_some {program : Program α} {item : α} {text : String} {e : Event τ α}
    {next : Program α} (buf : List α) (hformat : format item = some text)
    (hreturn : ∀ s' : State τ α,
      (s'.holding t buf ⟨program, .notified item⟩).step maxsize format t =
        some (e, s'.leaving t buf next)) :
    ∃ printed, turn maxsize format t 3 (s.holding t buf ⟨program, .changed item⟩) =
      ([.prints t printed, .notifiesAll t, e], s.notifyAll.leaving t buf next) := by
  obtain ⟨printed, hprints⟩ := step_changed_of_some maxsize format s t buf program
    hformat
  use printed
  rw [turn_holding 2 hprints, turn_holding 1 (step_printed maxsize format s t buf program item),
    turn_free 0 (hreturn s.notifyAll) rfl]

/-- Nobody sleeps unnotified after `notify_all`. -/
theorem phase_notifyAll_leaving (buf : List α) (next : Program α) (u : τ) :
    ((s.notifyAll.leaving t buf next).thread u).phase ≠ .asleep false := by
  by_cases hu : u = t
  · subst hu
    simp [leaving, setThread]
  · have hthread : (s.notifyAll.leaving t buf next).thread u = (s.thread u).notify := by
      simp [leaving, setThread, notifyAll, Function.update_of_ne hu]
    rw [hthread, Thread.notify]
    split
    · simp
    · next hawake => exact hawake false

/-! ## All or nothing -/

/-- A call that has to wait releases the lock and changes nothing. -/
theorem atomic_of_blocks {program : Program α} (hprogram : program ≠ .finished)
    (hblocks : blocks maxsize s.buf program = true) :
    (turn maxsize format t 6 (s.entering t program woken)).2.cond = none ∧
      TurnAtomic maxsize format s t program woken := by
  rw [TurnAtomic, turn_of_blocks hprogram hblocks]
  refine ⟨rfl, ?_, ?_⟩
  · intro _
    rfl
  · intro hchanged
    exact absurd rfl hchanged

/-- A call that goes on to change the buffer from `s.buf` to `buf`, with the first event `e`. -/
theorem atomic_iff_of_passes {program next : Program α} {buf : List α} {item : α}
    {e e' : Event τ α} (hprogram : program ≠ .finished)
    (hpasses : blocks maxsize s.buf program = false) (hbuf : buf ≠ s.buf)
    (hchange : (s.holding t s.buf ⟨program, .ready⟩).step maxsize format t =
      some (e, s.holding t buf ⟨program, .changed item⟩))
    (hreturn : ∀ s' : State τ α,
      (s'.holding t buf ⟨program, .notified item⟩).step maxsize format t =
        some (e', s'.leaving t buf next)) (hraised : e' ≠ .raised t) (hchanges : e ≠ .raised t) :
    (turn maxsize format t 6 (s.entering t program woken)).2.cond = none ∧
      (TurnAtomic maxsize format s t program woken ↔ format item ≠ none) := by
  rw [TurnAtomic, turn_of_passes hprogram hpasses, turn_holding 3 hchange]
  cases hformat : format item with
  | none =>
      rw [turn_changed_of_none buf hformat]
      refine ⟨rfl, ?_⟩
      constructor
      · intro hatomic
        refine absurd (hatomic.unchanged ?_) hbuf
        simp
      · intro hno
        exact absurd rfl hno
  | some text =>
      obtain ⟨printed, hturn⟩ := turn_changed_of_some (s := s) buf hformat hreturn
      rw [hturn]
      refine ⟨rfl, iff_of_true ?_ (Option.some_ne_none text)⟩
      constructor
      · intro hmem
        simp [hraised.symm, hchanges.symm] at hmem
      · intro _
        constructor
        · simp
        · exact phase_notifyAll_leaving buf next

/-- A turn of `put` is atomic just if it has to wait or the item can be printed. -/
theorem atomic_put_iff (item : α) (next : Program α) :
    (turn maxsize format t 6 (s.entering t (.put item next) woken)).2.cond = none ∧
      (TurnAtomic maxsize format s t (.put item next) woken ↔
        maxsize ≤ s.buf.length ∨ format item ≠ none) := by
  by_cases hfull : maxsize ≤ s.buf.length
  · have hblocks : blocks maxsize s.buf (.put item next) = true := decide_eq_true hfull
    have hwaits : (turn maxsize format t 6 (s.entering t (.put item next) woken)).2.cond = none ∧
        TurnAtomic maxsize format s t (.put item next) woken := atomic_of_blocks (by simp) hblocks
    exact ⟨hwaits.1, iff_of_true hwaits.2 (Or.inl hfull)⟩
  · have hpasses : blocks maxsize s.buf (.put item next) = false := decide_eq_false hfull
    rw [or_iff_right hfull]
    exact atomic_iff_of_passes (by simp) hpasses (by simp)
      (step_put maxsize format s t s.buf item next)
      (fun s' => step_notified_put maxsize format s' t (s.buf ++ [item]) item item next)
      (by simp) (by simp)

/-- A turn of `get` is atomic just if it has to wait or the item can be printed. -/
theorem atomic_get_iff (next : α → Program α) :
    (turn maxsize format t 6 (s.entering t (.get next) woken)).2.cond = none ∧
      (TurnAtomic maxsize format s t (.get next) woken ↔
        ∀ item ∈ s.buf.head?, format item ≠ none) := by
  cases hbuf : s.buf with
  | nil =>
      have hblocks : blocks maxsize s.buf (.get next) = true := by
        rw [hbuf]
        rfl
      have hwaits : (turn maxsize format t 6 (s.entering t (.get next) woken)).2.cond = none ∧
          TurnAtomic maxsize format s t (.get next) woken := atomic_of_blocks (by simp) hblocks
      exact ⟨hwaits.1, iff_of_true hwaits.2 (by simp)⟩
  | cons item rest =>
      have hpasses : blocks maxsize s.buf (.get next) = false := by
        rw [hbuf]
        rfl
      have hchange := step_get maxsize format s t item rest next
      rw [← hbuf] at hchange
      have hformat : (∀ first ∈ (item :: rest).head?, format first ≠ none) ↔
          format item ≠ none := by
        simp
      rw [hformat]
      exact atomic_iff_of_passes (by simp) hpasses (by simp [hbuf]) hchange
        (fun s' => step_notified_get maxsize format s' t rest item next) (by simp) (by simp)

/-- Whatever the buffer and the other threads are, a turn of `put` or of `get` ends with the
release of the lock, and it is all or nothing just if it has to wait or if the item that it puts
or takes can be formatted. -/
theorem atomic_iff (maxsize : ℕ) (format : α → Option String) (s : State τ α) (t : τ)
    (woken : Bool) :
    (∀ item next,
      (turn maxsize format t 6 (s.entering t (.put item next) woken)).2.cond = none ∧
        (TurnAtomic maxsize format s t (.put item next) woken ↔
          maxsize ≤ s.buf.length ∨ format item ≠ none)) ∧
      ∀ next,
        (turn maxsize format t 6 (s.entering t (.get next) woken)).2.cond = none ∧
          (TurnAtomic maxsize format s t (.get next) woken ↔
            ∀ item ∈ s.buf.head?, format item ≠ none) := by
  constructor
  · intro item next
    exact atomic_put_iff item next
  · intro next
    exact atomic_get_iff next

/-- `put` of an item that cannot be formatted, into an empty buffer of size 1: the call raises, and
the item is in the buffer. -/
theorem not_turnAtomic_put :
    ¬ TurnAtomic 1 (fun _ : Unit => none) (start fun _ : Unit => .finished) () (.put () .finished)
      false := by
  rw [(atomic_put_iff () .finished).2]
  simp [start]

end State

end BoundedBuffer

end Lock
