/-
# A bounded buffer (`python/shared_memory_lock/thread_producer_consumer.py`)

`put` and `get` under the one lock of a `Condition`.  One step of a thread is the acquisition of the
lock, one check of the loop's condition (with the `wait` that follows if it holds), the change of
the buffer, the `print`, the `notify_all`, or the release of the lock.  `wait` releases the lock; it
returns after a later `notify_all`, and once it has the lock again.

Between the change of the buffer and the `notify_all` a thread may be asleep, and not yet notified,
although the buffer is no longer full or empty (`not_alwaysBlocked`).  Otherwise whoever sleeps
unnotified has reason to (`run_monitor`).
-/
import Cocurrency.Lib.Run
import Mathlib.Data.Int.Notation
import Mathlib.Data.Nat.Notation
import Mathlib.Data.String.Basic
import Mathlib.Logic.Function.Basic

namespace Lock

namespace BoundedBuffer

/-- The calls of a thread; the item that `get` returns decides how it goes on. -/
inductive Program (α : Type*) where
  | finished
  | put (item : α) (next : Program α)
  | get (next : α → Program α)

/-- `producer`. -/
def producer {α : Type*} : List α → Program α
  | [] => .finished
  | item :: items => .put item (producer items)

/-- `consumer`, with the number of items that it is still to consume. -/
def consumer {α : Type*} : ℕ → Program α
  | 0 => .finished
  | count + 1 => .get fun _ => consumer count

/-- Where a thread is in the first call of its program. -/
inductive Phase (α : Type*) where
  /-- Before `with self._cond`. -/
  | outside
  | checking
  /-- In `wait`. -/
  | asleep (notified : Bool)
  /-- After the loop. -/
  | ready
  /-- The item has been appended or popped, and is to be printed. -/
  | changed (item : α)
  | printed (item : α)
  | notified (item : α)
  /-- `print` has raised an error. -/
  | failed
  deriving DecidableEq

/-- A thread with its program and where it is in it. -/
structure Thread (α : Type*) where
  program : Program α
  phase : Phase α

/-- The buffer, the holder of the lock of `_cond`, and the threads. -/
structure State (τ α : Type*) where
  buf : List α
  cond : Option τ
  thread : τ → Thread α

/-- What a step shows. -/
inductive Event (τ α : Type*) where
  | acquired (t : τ)
  | waits (t : τ)
  | passed (t : τ)
  | appended (t : τ) (item : α)
  | popped (t : τ) (item : α)
  | prints (t : τ) (text : String)
  | notifiesAll (t : τ)
  /-- The call has released the lock, and returns; `get` returns an item. -/
  | returned (t : τ) (item : Option α)
  | fails (t : τ)
  | raised (t : τ)

/-- `notify_all`, as it is seen by a thread. -/
def Thread.notify {α : Type*} (th : Thread α) : Thread α :=
  match th.phase with
  | .asleep _ => ⟨th.program, .asleep true⟩
  | _ => th

namespace State

variable {τ α : Type*}

/-- The condition of the loop. -/
def blocks (maxsize : ℕ) (buf : List α) : Program α → Bool
  | .put _ _ => maxsize ≤ buf.length
  | .get _ => buf.isEmpty
  | .finished => false

/-- The buffer is empty, and no thread has started. -/
def start (program : τ → Program α) : State τ α := ⟨[], none, fun t => ⟨program t, .outside⟩⟩

variable [DecidableEq τ]

/-- Thread `t` goes on to `th`. -/
def setThread (s : State τ α) (t : τ) (th : Thread α) : State τ α :=
  { s with thread := Function.update s.thread t th }

/-- Thread `t` goes on with its call. -/
def goOn (s : State τ α) (t : τ) (phase : Phase α) : State τ α :=
  s.setThread t ⟨(s.thread t).program, phase⟩

/-- The lock is taken, if it is free. -/
def acquire (s : State τ α) (t : τ) : Option (Event τ α × State τ α) :=
  match s.cond with
  | none => some (.acquired t, { s with cond := some t }.goOn t .checking)
  | some _ => none

/-- The text that `print` is given; `none` is the error of a `format` that fails. -/
def line (format : α → Option String) (s : State τ α) (program : Program α) (item : α) :
    Option String :=
  match format item with
  | none => none
  | some text =>
      let size := s.buf.length
      match program with
      | .put _ _ => some s!"  Produced {text}   | buffer size = {size}"
      | _ => some s!"  Consumed {text}   | buffer size = {size}"

/-- The next step of thread `t`, unless it has finished, sleeps or waits for the lock.  `format` is
the text of an item in the format `:>4`. -/
def step (maxsize : ℕ) (format : α → Option String) (s : State τ α) (t : τ) :
    Option (Event τ α × State τ α) :=
  match (s.thread t).phase with
  | .outside =>
      match (s.thread t).program with
      | .finished => none
      | _ => s.acquire t
  | .checking =>
      if blocks maxsize s.buf (s.thread t).program then
        some (.waits t, { s with cond := none }.goOn t (.asleep false))
      else some (.passed t, s.goOn t .ready)
  | .asleep false => none
  | .asleep true => s.acquire t
  | .ready =>
      match (s.thread t).program with
      | .put item _ =>
          some (.appended t item, { s with buf := s.buf ++ [item] }.goOn t (.changed item))
      | .get _ =>
          match s.buf with
          | [] => none
          | item :: rest => some (.popped t item, { s with buf := rest }.goOn t (.changed item))
      | .finished => none
  | .changed item =>
      match s.line format (s.thread t).program item with
      | some text => some (.prints t text, s.goOn t (.printed item))
      | none => some (.fails t, s.goOn t .failed)
  | .printed item =>
      some (.notifiesAll t,
        { s with thread := fun u => (s.thread u).notify }.goOn t (.notified item))
  | .notified item =>
      match (s.thread t).program with
      | .put _ next =>
          some (.returned t none, { s with cond := none }.setThread t ⟨next, .outside⟩)
      | .get next =>
          some (.returned t (some item),
            { s with cond := none }.setThread t ⟨next item, .outside⟩)
      | .finished => none
  | .failed => some (.raised t, { s with cond := none }.setThread t ⟨.finished, .outside⟩)

end State

/-! ## What a step does -/

namespace State

variable {τ α : Type*} [DecidableEq τ] (maxsize : ℕ) (format : α → Option String)

/-- What a step of thread `t` does. -/
inductive Effect (s : State τ α) (t : τ) : Event τ α → State τ α → Prop
  | acquired : s.cond = none →
      (s.thread t).phase = .outside ∨ (s.thread t).phase = .asleep true →
      Effect s t (.acquired t) ({ s with cond := some t }.goOn t .checking)
  | waits : (s.thread t).phase = .checking → blocks maxsize s.buf (s.thread t).program = true →
      Effect s t (.waits t) ({ s with cond := none }.goOn t (.asleep false))
  | passed : (s.thread t).phase = .checking →
      blocks maxsize s.buf (s.thread t).program = false →
      Effect s t (.passed t) (s.goOn t .ready)
  | appended (item : α) (next : Program α) : s.thread t = ⟨.put item next, .ready⟩ →
      Effect s t (.appended t item) ({ s with buf := s.buf ++ [item] }.goOn t (.changed item))
  | popped (item : α) (rest : List α) (next : α → Program α) : s.thread t = ⟨.get next, .ready⟩ →
      s.buf = item :: rest →
      Effect s t (.popped t item) ({ s with buf := rest }.goOn t (.changed item))
  | prints (item : α) (text : String) : (s.thread t).phase = .changed item →
      Effect s t (.prints t text) (s.goOn t (.printed item))
  | fails (item : α) : (s.thread t).phase = .changed item → format item = none →
      Effect s t (.fails t) (s.goOn t .failed)
  | notifiesAll (item : α) : (s.thread t).phase = .printed item →
      Effect s t (.notifiesAll t)
        ({ s with thread := fun u => (s.thread u).notify }.goOn t (.notified item))
  | returnedPut (item item' : α) (next : Program α) :
      s.thread t = ⟨.put item' next, .notified item⟩ →
      Effect s t (.returned t none) ({ s with cond := none }.setThread t ⟨next, .outside⟩)
  | returnedGet (item : α) (next : α → Program α) :
      s.thread t = ⟨.get next, .notified item⟩ →
      Effect s t (.returned t (some item))
        ({ s with cond := none }.setThread t ⟨next item, .outside⟩)
  | raised : (s.thread t).phase = .failed →
      Effect s t (.raised t) ({ s with cond := none }.setThread t ⟨.finished, .outside⟩)

variable {maxsize format} {s s' : State τ α} {t : τ} {e : Event τ α}

/-- The lock is free. -/
theorem acquire_eq_some (h : s.acquire t = some (e, s')) :
    s.cond = none ∧ e = .acquired t ∧ s' = { s with cond := some t }.goOn t .checking := by
  rw [acquire] at h
  split at h
  · next hfree =>
    cases h
    exact ⟨hfree, rfl, rfl⟩
  · cases h

omit [DecidableEq τ] in
/-- What cannot be printed. -/
theorem format_of_line {program : Program α} {item : α}
    (h : s.line format program item = none) : format item = none := by
  rw [line] at h
  split at h
  · next hnone => exact hnone
  · split at h <;> cases h

/-- What a step does. -/
theorem effect_step (h : s.step maxsize format t = some (e, s')) :
    Effect maxsize format s t e s' := by
  have hthread : s.thread t = ⟨(s.thread t).program, (s.thread t).phase⟩ := rfl
  rw [step] at h
  split at h
  · next hphase =>
    split at h
    · cases h
    · obtain ⟨hfree, rfl, rfl⟩ := acquire_eq_some h
      exact .acquired hfree (Or.inl hphase)
  · next hphase =>
    split at h
    · next hblocks =>
      cases h
      exact .waits hphase hblocks
    · next hpasses =>
      cases h
      exact .passed hphase (Bool.eq_false_iff.mpr hpasses)
  · cases h
  · next hphase =>
    obtain ⟨hfree, rfl, rfl⟩ := acquire_eq_some h
    exact .acquired hfree (Or.inr hphase)
  · next hphase =>
    split at h
    · next item next hprogram =>
      cases h
      rw [hprogram, hphase] at hthread
      exact .appended item next hthread
    · next next hprogram =>
      rw [hprogram, hphase] at hthread
      split at h
      · cases h
      · next item rest hbuf =>
        cases h
        exact .popped item rest next hthread hbuf
    · cases h
  · next item hphase =>
    split at h
    · next text _ =>
      cases h
      exact .prints item text hphase
    · next hline =>
      cases h
      exact .fails item hphase (format_of_line hline)
  · next item hphase =>
    cases h
    exact .notifiesAll item hphase
  · next item hphase =>
    split at h
    · next item' next hprogram =>
      cases h
      rw [hprogram, hphase] at hthread
      exact .returnedPut item item' next hthread
    · next next hprogram =>
      cases h
      rw [hprogram, hphase] at hthread
      exact .returnedGet item next hthread
    · cases h
  · next hphase =>
    cases h
    exact .raised hphase

end State

/-! ## Who holds the lock -/

section Threads

variable {α : Type*}

/-- The thread holds the lock. -/
def Phase.Inside : Phase α → Prop
  | .outside | .asleep _ => False
  | _ => True

/-- It has changed the buffer, and not yet called `notify_all`. -/
def Phase.Changing : Phase α → Prop
  | .changed _ | .printed _ => True
  | _ => False

/-- It sleeps in `put`, and has not been notified since it went to sleep. -/
def Thread.AsleepInPut (th : Thread α) : Prop :=
  ∃ item next, th = ⟨.put item next, .asleep false⟩

/-- It sleeps in `get`, and has not been notified since it went to sleep. -/
def Thread.AsleepInGet (th : Thread α) : Prop := ∃ next, th = ⟨.get next, .asleep false⟩

/-- The item that the thread has in hand, between the change of the buffer and its end of the block.
-/
def Phase.item : Phase α → List α
  | .changed item | .printed item | .notified item => [item]
  | _ => []

/-- The item that a `get` has popped and not yet returned. -/
def Thread.hand (th : Thread α) : List α :=
  match th.program with
  | .get _ => th.phase.item
  | _ => []

/-- The hand depends on the program and the item. -/
theorem hand_congr {th th' : Thread α} (hprogram : th.program = th'.program)
    (hitem : th.phase.item = th'.phase.item) : th.hand = th'.hand := by
  rw [Thread.hand, Thread.hand, hprogram, hitem]

/-- Nothing in hand. -/
theorem hand_eq_nil {th : Thread α} (hitem : th.phase.item = []) : th.hand = [] := by
  rw [Thread.hand, hitem]
  split <;> rfl

/-- Who changes the buffer has the lock. -/
theorem Phase.Changing.inside {p : Phase α} (h : p.Changing) : p.Inside := by
  cases p with
  | changed item => trivial
  | printed item => trivial
  | _ => exact absurd h id

/-- A notified thread is inside just if it was. -/
theorem notify_inside {th : Thread α} : th.notify.phase.Inside ↔ th.phase.Inside := by
  rw [Thread.notify]
  split
  · next hphase =>
    rw [hphase]
    exact Iff.rfl
  · exact Iff.rfl

/-- `notify_all` is nothing to the thread inside. -/
theorem notify_of_inside {th : Thread α} (h : th.phase.Inside) : th.notify = th := by
  rw [Thread.notify]
  split
  · next hphase =>
    rw [hphase] at h
    exact absurd h id
  · rfl

/-- After `notify_all` no thread sleeps unnotified. -/
theorem notify_phase_ne (th : Thread α) : th.notify.phase ≠ .asleep false := by
  rw [Thread.notify]
  split
  · simp
  · next hphase => exact hphase false

end Threads

namespace State

variable {τ α : Type*}

/-- The lock is held by the one thread that is inside. -/
def LockOk (s : State τ α) : Prop := ∀ t, s.cond = some t ↔ (s.thread t).phase.Inside

/-- Some thread has changed the buffer and not yet called `notify_all`. -/
def Changing (s : State τ α) : Prop := ∃ t, (s.thread t).phase.Changing

/-- The item in the hand of the holder of the lock. -/
def hand (s : State τ α) : List α :=
  match s.cond with
  | none => []
  | some t => (s.thread t).hand

variable {maxsize : ℕ} {format : α → Option String} {s s' : State τ α} {t u : τ} {e : Event τ α}

/-- The lock has one holder. -/
theorem LockOk.unique (hl : LockOk s) (ht : (s.thread t).phase.Inside)
    (hu : (s.thread u).phase.Inside) : u = t := by
  have hholds := (hl t).mpr ht
  rw [(hl u).mpr hu] at hholds
  exact Option.some.inj hholds

/-- While the lock is free no buffer is being changed. -/
theorem LockOk.not_changing_of_free (hl : LockOk s) (hfree : s.cond = none) : ¬ s.Changing := by
  rintro ⟨u, hu⟩
  have hholds := (hl u).mpr hu.inside
  rw [hfree] at hholds
  cases hholds

/-- Only the holder of the lock changes the buffer. -/
theorem LockOk.not_changing (hl : LockOk s) (ht : (s.thread t).phase.Inside)
    (hnot : ¬ (s.thread t).phase.Changing) : ¬ s.Changing := by
  rintro ⟨u, hu⟩
  rw [hl.unique ht hu.inside] at hu
  exact hnot hu

variable [DecidableEq τ]

/-- The holder of the lock goes on, and keeps or releases it. -/
theorem LockOk.of_update (hl : LockOk s) {th : Thread α} (ht : s.cond = none ∨ s.cond = some t)
    (hthread : s'.thread = Function.update s.thread t th)
    (hcond : s'.cond = some t ∧ th.phase.Inside ∨ s'.cond = none ∧ ¬ th.phase.Inside) :
    LockOk s' := by
  intro u
  rw [hthread]
  by_cases hu : u = t
  · rw [hu, Function.update_self]
    rcases hcond with ⟨hsome, hinside⟩ | ⟨hnone, hnot⟩
    · exact iff_of_true hsome hinside
    · refine iff_of_false (fun hsome => ?_) hnot
      rw [hnone] at hsome
      cases hsome
  · rw [Function.update_of_ne hu, ← hl u]
    refine iff_of_false (fun hsome => hu ?_) fun hsome => hu ?_
    · rcases hcond with ⟨hcond, -⟩ | ⟨hcond, -⟩
      · rw [hcond] at hsome
        exact (Option.some.inj hsome).symm
      · rw [hcond] at hsome
        cases hsome
    · rcases ht with hcond | hcond
      · rw [hcond] at hsome
        cases hsome
      · rw [hcond] at hsome
        exact (Option.some.inj hsome).symm

omit [DecidableEq τ] in
/-- `notify_all` is nothing to the lock. -/
theorem LockOk.notified (hl : LockOk s) :
    LockOk { s with thread := fun u => (s.thread u).notify } := fun u =>
  (hl u).trans notify_inside.symm

/-- The holder of the lock goes on. -/
theorem LockOk.stays (hl : LockOk s) {th : Thread α} (ht : (s.thread t).phase.Inside)
    (hthread : s'.thread = Function.update s.thread t th) (hcond : s'.cond = s.cond)
    (hinside : th.phase.Inside) : LockOk s' :=
  hl.of_update (Or.inr ((hl t).mpr ht)) hthread (Or.inl ⟨hcond.trans ((hl t).mpr ht), hinside⟩)

/-- The holder of the lock gives it back. -/
theorem LockOk.leaves (hl : LockOk s) {th : Thread α} (ht : (s.thread t).phase.Inside)
    (hthread : s'.thread = Function.update s.thread t th) (hcond : s'.cond = none)
    (hnot : ¬ th.phase.Inside) : LockOk s' :=
  hl.of_update (Or.inr ((hl t).mpr ht)) hthread (Or.inr ⟨hcond, hnot⟩)

/-- **The lock** is right after every step. -/
theorem LockOk.effect (hl : LockOk s) (heffect : Effect maxsize format s t e s') : LockOk s' := by
  cases heffect with
  | acquired hfree hphase =>
      exact hl.of_update (t := t) (Or.inl hfree) rfl (Or.inl ⟨rfl, trivial⟩)
  | waits hphase hblocks => exact hl.leaves (t := t) (by rw [hphase]; trivial) rfl rfl id
  | passed hphase hpasses => exact hl.stays (t := t) (by rw [hphase]; trivial) rfl rfl trivial
  | appended item next hthread =>
      exact hl.stays (t := t) (by rw [hthread]; trivial) rfl rfl trivial
  | popped item rest next hthread hbuf =>
      exact hl.stays (t := t) (by rw [hthread]; trivial) rfl rfl trivial
  | prints item text hphase => exact hl.stays (t := t) (by rw [hphase]; trivial) rfl rfl trivial
  | fails item hphase hformat =>
      exact hl.stays (t := t) (by rw [hphase]; trivial) rfl rfl trivial
  | notifiesAll item hphase =>
      have hinside : (s.thread t).notify.phase.Inside := by
        rw [notify_inside, hphase]
        trivial
      exact hl.notified.stays (t := t) hinside rfl rfl trivial
  | returnedPut item item' next hthread =>
      exact hl.leaves (t := t) (by rw [hthread]; trivial) rfl rfl id
  | returnedGet item next hthread =>
      exact hl.leaves (t := t) (by rw [hthread]; trivial) rfl rfl id
  | raised hphase => exact hl.leaves (t := t) (by rw [hphase]; trivial) rfl rfl id

/-! ## First in, first out -/

/-- The items that have been put. -/
def added (h : List (Event τ α)) : List α :=
  h.filterMap fun e => match e with
    | .appended _ item => some item
    | _ => none

/-- The items that `get` has returned. -/
def taken (h : List (Event τ α)) : List α :=
  h.filterMap fun e => match e with
    | .returned _ item => item
    | _ => none

/-- What has been taken, what the thread inside has in hand and the buffer are what has been added,
in order. -/
def Fifo (h : List (Event τ α)) (s : State τ α) : Prop := taken h ++ s.hand ++ s.buf = added h

omit [DecidableEq τ] in
/-- The hand of the thread inside. -/
theorem hand_of_inside (hl : LockOk s) (ht : (s.thread t).phase.Inside) :
    s.hand = (s.thread t).hand := by
  rw [hand, (hl t).mpr ht]

omit [DecidableEq τ] in
/-- Nobody is inside, so nothing is in hand. -/
theorem hand_of_free (hfree : s.cond = none) : s.hand = [] := by
  rw [hand, hfree]

/-- The thread inside goes on with what it has in hand. -/
theorem hand_stays (hl' : LockOk s') {th : Thread α}
    (hthread : s'.thread = Function.update s.thread t th) (hinside : th.phase.Inside) :
    s'.hand = th.hand := by
  have hnow : s'.thread t = th := by rw [hthread, Function.update_self]
  rw [hand_of_inside hl' (t := t) (by rw [hnow]; exact hinside), hnow]

variable {h : List (Event τ α)}

omit [DecidableEq τ] in
/-- Nothing has been added or taken. -/
theorem Fifo.of_same (hf : Fifo h s) (htaken : taken (h ++ [e]) = taken h)
    (hadded : added (h ++ [e]) = added h) (hhand : s'.hand = s.hand) (hbuf : s'.buf = s.buf) :
    Fifo (h ++ [e]) s' := by
  rw [Fifo, htaken, hadded, hhand, hbuf]
  exact hf

/-- **The order** is kept by every step. -/
theorem Fifo.effect (hl : LockOk s) (hf : Fifo h s) (hformat : ∀ item, format item ≠ none)
    (heffect : Effect maxsize format s t e s') : Fifo (h ++ [e]) s' := by
  have hl' := hl.effect heffect
  have hhand : (s.thread t).phase.Inside → s.hand = (s.thread t).hand := hand_of_inside hl
  cases heffect with
  | acquired hfree hphase =>
      refine hf.of_same (by simp [taken]) (by simp [added]) ?_ rfl
      rw [hand_stays hl' rfl trivial, hand_of_free hfree]
      exact hand_eq_nil rfl
  | waits hphase hblocks =>
      refine hf.of_same (by simp [taken]) (by simp [added]) ?_ rfl
      rw [hand_of_free rfl, hhand (by rw [hphase]; trivial)]
      exact (hand_eq_nil (by rw [hphase]; rfl)).symm
  | passed hphase hpasses =>
      refine hf.of_same (by simp [taken]) (by simp [added]) ?_ rfl
      rw [hand_stays hl' rfl trivial, hhand (by rw [hphase]; trivial)]
      exact hand_congr rfl (by rw [hphase]; rfl)
  | appended item next hthread =>
      have hbefore : s.hand = [] := by
        rw [hhand (by rw [hthread]; trivial), hthread]
        rfl
      have hafter : ({ s with buf := s.buf ++ [item] }.goOn t (.changed item)).hand = [] := by
        rw [hand_stays hl' rfl trivial, Thread.hand]
        show (match (s.thread t).program with | .get _ => _ | _ => []) = []
        rw [hthread]
      have hadded : added (h ++ [.appended t item]) = added h ++ [item] := by simp [added]
      have htaken : taken (h ++ [.appended t item]) = taken h := by simp [taken]
      rw [Fifo, hbefore] at hf
      rw [Fifo, hafter, hadded, htaken, ← hf]
      exact (List.append_assoc _ _ _).symm
  | popped item rest next hthread hbuf =>
      have hbefore : s.hand = [] := by
        rw [hhand (by rw [hthread]; trivial), hthread]
        rfl
      have hafter : ({ s with buf := rest }.goOn t (.changed item)).hand = [item] := by
        rw [hand_stays hl' rfl trivial, Thread.hand]
        show (match (s.thread t).program with | .get _ => [item] | _ => []) = [item]
        rw [hthread]
      have hadded : added (h ++ [.popped t item]) = added h := by simp [added]
      have htaken : taken (h ++ [.popped t item]) = taken h := by simp [taken]
      rw [Fifo, hbefore, hbuf] at hf
      rw [Fifo, hafter, hadded, htaken, ← hf]
      simp [goOn, setThread]
  | prints item text hphase =>
      refine hf.of_same (by simp [taken]) (by simp [added]) ?_ rfl
      rw [hand_stays hl' rfl trivial, hhand (by rw [hphase]; trivial)]
      exact hand_congr rfl (by rw [hphase]; rfl)
  | fails item hphase hnone => exact absurd hnone (hformat item)
  | notifiesAll item hphase =>
      have hnotify : (s.thread t).notify = s.thread t :=
        notify_of_inside (by rw [hphase]; trivial)
      refine hf.of_same (by simp [taken]) (by simp [added]) ?_ rfl
      rw [hand_stays hl' rfl trivial, hhand (by rw [hphase]; trivial)]
      refine hand_congr ?_ (by rw [hphase]; rfl)
      show (s.thread t).notify.program = (s.thread t).program
      rw [hnotify]
  | returnedPut item item' next hthread =>
      refine hf.of_same (by simp [taken]) (by simp [added]) ?_ rfl
      rw [hand_of_free rfl, hhand (by rw [hthread]; trivial), hthread]
      rfl
  | returnedGet item next hthread =>
      have hbefore : s.hand = [item] := by
        rw [hhand (by rw [hthread]; trivial), hthread]
        rfl
      have hadded : added (h ++ [.returned t (some item)]) = added h := by simp [added]
      have htaken : taken (h ++ [.returned t (some item)]) = taken h ++ [item] := by simp [taken]
      rw [Fifo, hbefore] at hf
      rw [Fifo, hand_of_free rfl, hadded, htaken, ← hf, List.append_nil]
      rfl
  | raised hphase =>
      refine hf.of_same (by simp [taken]) (by simp [added]) ?_ rfl
      rw [hand_of_free rfl, hhand (by rw [hphase]; trivial)]
      exact (hand_eq_nil (by rw [hphase]; rfl)).symm

/-! ## Who sleeps -/

/-- Whoever sleeps unnotified has to wait still. -/
def Blocked (maxsize : ℕ) (s : State τ α) : Prop :=
  ∀ u, (s.thread u).phase = .asleep false → blocks maxsize s.buf (s.thread u).program = true

/-- No producer and no consumer both sleep unnotified. -/
def NotBoth (s : State τ α) : Prop :=
  ∀ t u, (s.thread t).AsleepInPut → ¬ (s.thread u).AsleepInGet

/-- A step that neither changes the buffer nor puts a thread to sleep. -/
theorem Blocked.frame (hb : Blocked maxsize s) {th : Thread α}
    (hthread : s'.thread = Function.update s.thread t th) (hbuf : s'.buf = s.buf)
    (hawake : th.phase ≠ .asleep false) : Blocked maxsize s' := by
  intro u hasleep
  rw [hthread] at hasleep ⊢
  by_cases hu : u = t
  · rw [hu, Function.update_self] at hasleep
    exact absurd hasleep hawake
  · rw [Function.update_of_ne hu] at hasleep ⊢
    rw [hbuf]
    exact hb u hasleep

/-- The thread goes on changing the buffer. -/
theorem changing_update {th : Thread α} (hthread : s'.thread = Function.update s.thread t th)
    (hchanging : th.phase.Changing) : (s'.thread t).phase.Changing := by
  rw [hthread, Function.update_self]
  exact hchanging

/-- After `notify_all` everybody has been notified. -/
theorem notifiesAll_phase_ne {item : α} (u : τ) :
    (({ s with thread := fun u => (s.thread u).notify }.goOn t (.notified item)).thread u).phase ≠
      .asleep false := by
  show (Function.update (fun u => (s.thread u).notify) t _ u).phase ≠ .asleep false
  by_cases hu : u = t
  · rw [hu, Function.update_self]
    simp
  · rw [Function.update_of_ne hu]
    exact notify_phase_ne (s.thread u)

/-- **Who sleeps unnotified has to wait**, after every step. -/
theorem Blocked.effect (hl : LockOk s) (hb : ¬ s.Changing → Blocked maxsize s)
    (hformat : ∀ item, format item ≠ none) (heffect : Effect maxsize format s t e s') :
    ¬ s'.Changing → Blocked maxsize s' := by
  intro hnot
  have hbefore : (s.thread t).phase.Inside → ¬ (s.thread t).phase.Changing → Blocked maxsize s :=
    fun hinside hstill => hb (hl.not_changing hinside hstill)
  cases heffect with
  | acquired hfree hphase =>
      exact (hb (hl.not_changing_of_free hfree)).frame (t := t) rfl rfl (by simp)
  | waits hphase hblocks =>
      have hb := hbefore (by rw [hphase]; trivial) (by rw [hphase]; exact id)
      intro u hasleep
      by_cases hu : u = t
      · show blocks maxsize s.buf (Function.update s.thread t _ u).program = true
        rw [hu, Function.update_self]
        exact hblocks
      · have hsame : ({ s with cond := none }.goOn t (.asleep false)).thread u = s.thread u :=
          Function.update_of_ne hu _ _
        rw [hsame] at hasleep ⊢
        exact hb u hasleep
  | passed hphase hpasses =>
      have hb := hbefore (by rw [hphase]; trivial) (by rw [hphase]; exact id)
      exact hb.frame (t := t) rfl rfl (by simp)
  | appended item next hthread => exact absurd ⟨t, changing_update rfl trivial⟩ hnot
  | popped item rest next hthread hbuf => exact absurd ⟨t, changing_update rfl trivial⟩ hnot
  | prints item text hphase => exact absurd ⟨t, changing_update rfl trivial⟩ hnot
  | fails item hphase hnone => exact absurd hnone (hformat item)
  | notifiesAll item hphase =>
      intro u hasleep
      exact absurd hasleep (notifiesAll_phase_ne u)
  | returnedPut item item' next hthread =>
      have hb := hbefore (by rw [hthread]; trivial) (by rw [hthread]; exact id)
      exact hb.frame (t := t) rfl rfl (by simp)
  | returnedGet item next hthread =>
      have hb := hbefore (by rw [hthread]; trivial) (by rw [hthread]; exact id)
      exact hb.frame (t := t) rfl rfl (by simp)
  | raised hphase =>
      have hb := hbefore (by rw [hphase]; trivial) (by rw [hphase]; exact id)
      exact hb.frame (t := t) rfl rfl (by simp)

omit [DecidableEq τ] in
/-- The buffer is not both full and empty. -/
theorem Blocked.notBoth (hmax : 1 ≤ maxsize) (hb : Blocked maxsize s) : NotBoth s := by
  rintro t u ⟨item, next, ht⟩ ⟨next', hu⟩
  have hfull := hb t (by rw [ht])
  have hempty := hb u (by rw [hu])
  rw [ht, blocks, decide_eq_true_iff] at hfull
  rw [hu, blocks, List.isEmpty_iff] at hempty
  rw [hempty, List.length_nil] at hfull
  omega

/-- A step that does not put its thread to sleep. -/
theorem NotBoth.frame (hn : NotBoth s) {th : Thread α}
    (hthread : s'.thread = Function.update s.thread t th) (hawake : th.phase ≠ .asleep false) :
    NotBoth s' := by
  rintro v u ⟨item, next, hv⟩ ⟨next', hu⟩
  rw [hthread] at hv hu
  by_cases hvt : v = t
  · rw [hvt, Function.update_self] at hv
    exact hawake (by rw [hv])
  · by_cases hut : u = t
    · rw [hut, Function.update_self] at hu
      exact hawake (by rw [hu])
    · rw [Function.update_of_ne hvt] at hv
      rw [Function.update_of_ne hut] at hu
      exact hn v u ⟨item, next, hv⟩ ⟨next', hu⟩

/-- **A producer and a consumer never both sleep unnotified**: whoever changes the buffer notifies
before it leaves. -/
theorem NotBoth.effect (hmax : 1 ≤ maxsize) (hl : LockOk s)
    (hb : ¬ s.Changing → Blocked maxsize s) (hn : NotBoth s)
    (hformat : ∀ item, format item ≠ none) (heffect : Effect maxsize format s t e s') :
    NotBoth s' := by
  have hb' := Blocked.effect hl hb hformat heffect
  have hl' := hl.effect heffect
  cases heffect with
  | acquired hfree hphase => exact hn.frame (t := t) rfl (by simp)
  | waits hphase hblocks => exact (hb' (hl'.not_changing_of_free rfl)).notBoth hmax
  | passed hphase hpasses => exact hn.frame (t := t) rfl (by simp)
  | appended item next hthread => exact hn.frame (t := t) rfl (by simp)
  | popped item rest next hthread hbuf => exact hn.frame (t := t) rfl (by simp)
  | prints item text hphase => exact hn.frame (t := t) rfl (by simp)
  | fails item hphase hnone => exact hn.frame (t := t) rfl (by simp)
  | notifiesAll item hphase =>
      rintro v u ⟨item', next, hv⟩ -
      exact notifiesAll_phase_ne v (by rw [hv])
  | returnedPut item item' next hthread => exact hn.frame (t := t) rfl (by simp)
  | returnedGet item next hthread => exact hn.frame (t := t) rfl (by simp)
  | raised hphase => exact hn.frame (t := t) rfl (by simp)

/-! ## The size of the buffer -/

/-- A thread that has left the loop can change the buffer, which is within its bound. -/
structure SizeOk (maxsize : ℕ) (s : State τ α) : Prop where
  length_le : s.buf.length ≤ maxsize
  ready : ∀ u, (s.thread u).phase = .ready → blocks maxsize s.buf (s.thread u).program = false

omit [DecidableEq τ] in
/-- With the lock free. -/
theorem SizeOk.of_free (hl' : LockOk s') (hle : s'.buf.length ≤ maxsize) (hfree : s'.cond = none) :
    SizeOk maxsize s' := by
  refine ⟨hle, fun u hready => ?_⟩
  have hholds := (hl' u).mpr (by rw [hready]; trivial)
  rw [hfree] at hholds
  cases hholds

/-- The thread inside goes on. -/
theorem SizeOk.of_stays (hl' : LockOk s') {th : Thread α} {before : τ → Thread α}
    (hle : s'.buf.length ≤ maxsize) (hthread : s'.thread = Function.update before t th)
    (hinside : th.phase.Inside)
    (hready : th.phase = .ready → blocks maxsize s'.buf th.program = false) :
    SizeOk maxsize s' := by
  have hnow : s'.thread t = th := by rw [hthread, Function.update_self]
  refine ⟨hle, fun u hu => ?_⟩
  -- no other thread is inside
  have hut : u = t := hl'.unique (by rw [hnow]; exact hinside) (by rw [hu]; trivial)
  rw [hut, hnow] at hu ⊢
  exact hready hu

/-- **The size** is right after every step. -/
theorem SizeOk.effect (hl : LockOk s) (hz : SizeOk maxsize s)
    (heffect : Effect maxsize format s t e s') : SizeOk maxsize s' := by
  have hl' := hl.effect heffect
  have hle := hz.length_le
  cases heffect with
  | acquired hfree hphase => exact .of_stays hl' hle rfl trivial fun h => by cases h
  | waits hphase hblocks => exact .of_free hl' hle rfl
  | passed hphase hpasses => exact .of_stays hl' hle rfl trivial fun _ => hpasses
  | appended item next hthread =>
      have hroom := hz.ready t (by rw [hthread])
      rw [hthread, blocks, decide_eq_false_iff_not] at hroom
      refine .of_stays hl' ?_ rfl trivial fun h => by cases h
      show (s.buf ++ [item]).length ≤ maxsize
      rw [List.length_append, List.length_singleton]
      omega
  | popped item rest next hthread hbuf =>
      rw [hbuf, List.length_cons] at hle
      exact .of_stays hl' (Nat.le_of_succ_le hle) rfl trivial fun h => by cases h
  | prints item text hphase => exact .of_stays hl' hle rfl trivial fun h => by cases h
  | fails item hphase hnone => exact .of_stays hl' hle rfl trivial fun h => by cases h
  | notifiesAll item hphase => exact .of_stays hl' hle rfl trivial fun h => by cases h
  | returnedPut item item' next hthread => exact .of_free hl' hle rfl
  | returnedGet item next hthread => exact .of_free hl' hle rfl
  | raised hphase => exact .of_free hl' hle rfl

/-! ## Every run -/

/-- What holds of a monitor in every state. -/
structure MonitorOk (maxsize : ℕ) (h : List (Event τ α)) (s : State τ α) : Prop where
  length_le : s.buf.length ≤ maxsize
  /-- The items that `get` has returned, the one in the hand of the thread that holds the lock, and
  the buffer are the items that have been put. -/
  fifo : taken h ++ s.hand ++ s.buf = added h
  /-- A thread sleeps unnotified in `put` only while the buffer is full. -/
  full : ¬ s.Changing → ∀ t, (s.thread t).AsleepInPut → s.buf.length = maxsize
  /-- A thread sleeps unnotified in `get` only while the buffer is empty. -/
  empty : ¬ s.Changing → ∀ t, (s.thread t).AsleepInGet → s.buf = []
  notBoth : ∀ t u, (s.thread t).AsleepInPut → ¬ (s.thread u).AsleepInGet

/-- **The monitor**, for items that can be printed. -/
theorem run_monitorOk (hmax : 1 ≤ maxsize) (hformat : ∀ item, format item ≠ none)
    {program : τ → Program α} (hr : Run (step maxsize format) anyStep (start program) h s) :
    MonitorOk maxsize h s := by
  have hinv : LockOk s ∧ Fifo h s ∧ (¬ s.Changing → Blocked maxsize s) ∧ NotBoth s ∧
      SizeOk maxsize s := by
    refine Run.invariant (fun h s => LockOk s ∧ Fifo h s ∧
      (¬ s.Changing → Blocked maxsize s) ∧ NotBoth s ∧ SizeOk maxsize s) ?_ ?_ hr
    · refine ⟨fun t => iff_of_false (fun h => by cases h) id, rfl, fun _ u hasleep => ?_, ?_,
        Nat.zero_le _, fun u hready => ?_⟩
      · cases hasleep
      · rintro t u ⟨item, next, ht⟩ -
        cases (congrArg Thread.phase ht : Phase.outside = _)
      · cases hready
    · rintro h s t e s' ⟨hl, hf, hb, hn, hz⟩ - hs
      have heffect := effect_step hs
      exact ⟨hl.effect heffect, hf.effect hl hformat heffect, Blocked.effect hl hb hformat heffect,
        hn.effect hmax hl hb hformat heffect, hz.effect hl heffect⟩
  obtain ⟨-, hf, hb, hn, hz⟩ := hinv
  refine ⟨hz.length_le, hf, fun hnot t ⟨item, next, ht⟩ => ?_, fun hnot t ⟨next, ht⟩ => ?_, hn⟩
  · have hfull := hb hnot t (by rw [ht])
    rw [ht, blocks, decide_eq_true_iff] at hfull
    exact Nat.le_antisymm hz.length_le hfull
  · have hempty := hb hnot t (by rw [ht])
    rw [ht, blocks, List.isEmpty_iff] at hempty
    exact hempty

end State

/-! ## Integers -/

/-- An integer in the format `:>4`. -/
def formatInt (item : ℤ) : Option String :=
  let text := toString item
  some ("".pushn ' ' (4 - text.length) ++ text)

namespace State

variable {τ : Type*} [DecidableEq τ]

/-- **A buffer of integers.**  In every reachable state it is within its bound and a queue; while no
thread is between its change of the buffer and its `notify_all`, whoever sleeps unnotified has to
wait; and at no time do a producer and a consumer both sleep unnotified. -/
theorem run_monitor {maxsize : ℕ} (hmax : 1 ≤ maxsize) {program : τ → Program ℤ}
    {h : List (Event τ ℤ)} {s : State τ ℤ}
    (hr : Run (step maxsize formatInt) anyStep (start program) h s) : MonitorOk maxsize h s :=
  run_monitorOk hmax (fun _ => Option.some_ne_none _) hr

/-- One producer and one consumer. -/
def pair : Bool → Program ℤ
  | true => producer [1, 2]
  | false => consumer 1

/-- The producer has put its first item, and sleeps because the buffer is full. -/
theorem run_monitor_pair : ∃ (h : List (Event Bool ℤ)) (s : State Bool ℤ),
    Run (step 1 formatInt) anyStep (start pair) h s ∧ (s.thread true).AsleepInPut ∧
      MonitorOk 1 h s := by
  have hr := run_of_replay (step 1 formatInt) (s := start pair)
    [true, true, true, true, true, true, true, true] rfl
  exact ⟨_, _, hr, ⟨2, .finished, rfl⟩, run_monitor (by decide) hr⟩

/-- The consumer has popped that item, and has not notified the producer yet. -/
theorem not_alwaysBlocked : ¬ ∀ (maxsize : ℕ) (program : Bool → Program ℤ)
    (h : List (Event Bool ℤ)) (s : State Bool ℤ), 1 ≤ maxsize →
    Run (step maxsize formatInt) anyStep (start program) h s →
    s.buf.length ≤ maxsize ∧ taken h ++ s.buf = added h ∧
      (∀ t, (s.thread t).AsleepInPut → s.buf.length = maxsize) ∧
      ∀ t, (s.thread t).AsleepInGet → s.buf = [] := by
  intro hall
  have hr := run_of_replay (step 1 formatInt) (s := start pair)
    [true, true, true, true, true, true, true, true, false, false, false] rfl
  obtain ⟨-, -, hfull, -⟩ := hall 1 pair _ _ (by decide) hr
  have hlength := hfull true ⟨2, .finished, rfl⟩
  revert hlength
  decide

end State

end BoundedBuffer

end Lock
