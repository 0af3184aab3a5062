/-
# Counters under a lock (`go/shared_memory/main.go`, `kotlin/shared_memory/MutexDemo.kt`)

`Inc`, `Dec` and `Value` of `SafeCounter` hold the lock to the end (`defer`); `mutex.withLock`
around `safeCounter++` is an `Inc`.  Some threads make such calls, and the main one waits for all of
them (`wg.Wait()`, or a `join` each) and reads the counter; in Kotlin it does so without the lock.
The counter is a machine integer: `value` is an `int` of 64 bits in Go, `safeCounter` an `Int` of 32
bits in Kotlin.

* `Ok` : the counter is what has been added up so far, and every `Value` has returned that;
* `counter_correct` : so every run ends, and the main thread reads the sum of all calls.
-/
import Cocurrency.Lib.MonitorHalts
import Mathlib.Algebra.Order.Ring.Int
import Mathlib.Data.Fintype.Option
import Mathlib.Data.Fintype.BigOperators

namespace Lock

namespace SafeCounter

open Monitor (Section Instr Atomic Deed deed)

/-- Machine integers, with what `++` and `--` do to those of a width. -/
structure Wraps (w : Type*) [Add w] [Sub w] [OfNat w 1] where
  ofInt : ℤ → w
  ofInt_add_one (n : ℤ) : ofInt (n + 1) = ofInt n + 1
  ofInt_sub_one (n : ℤ) : ofInt (n - 1) = ofInt n - 1

/-- `int` -/
def int64 : Wraps Int64 where
  ofInt := Int64.ofInt
  ofInt_add_one n := Int64.ofInt_add n 1
  ofInt_sub_one n := Int64.ofInt_sub n 1

/-- `Int` -/
def int32 : Wraps Int32 where
  ofInt := Int32.ofInt
  ofInt_add_one n := Int32.ofInt_add n 1
  ofInt_sub_one n := Int32.ofInt_sub n 1

/-- The calls of the methods. -/
inductive Call where
  | Inc
  | Dec
  | Value
  deriving DecidableEq

/-- What the calls return. -/
inductive Result (w : Type*) where
  | incremented
  | decremented
  | value (v : w)
  deriving DecidableEq

section Calls

variable {w : Type*} [Add w] [Sub w] [OfNat w 1]

/-- A call holds the lock, reads, and writes. -/
def Call.critical (call : Call) : Section w (Result w) where
  guard _ := true
  body :=
    match call with
    | .Inc => .access id fun value => .access (fun _ => value + 1) fun _ => .done .incremented
    | .Dec => .access id fun value => .access (fun _ => value - 1) fun _ => .done .decremented
    | .Value => .access id fun value => .done (.value value)
  notifies _ := false
  notifiesInside := false

/-- Where a thread is: `none` is the main one. -/
inductive Control where
  | calls (rest : List Call)
  | waiting
  | reading
  | returned
  deriving DecidableEq

/-- The goroutines are `ids`. -/
def code {ι : Type*} (ids : List ι) : Control → Instr (Option ι) Control w (Result w)
  | .calls [] | .returned => .finished
  | .calls (call :: rest) => .locked call.critical fun _ => .calls rest
  | .waiting => .join (ids.map some) .reading
  | .reading => .locked Call.Value.critical fun _ => .returned

/-- At first `main` waits for its workers. -/
def begins {ι : Type*} (program : ι → List Call) : Option ι → Control
  | none => .waiting
  | some i => .calls (program i)

end Calls

/-! ## What has been counted -/

/-- What a call adds. -/
def Call.net : Call → ℤ
  | .Inc => 1
  | .Dec => -1
  | .Value => 0

/-- What the calls change in all. -/
def net (calls : List Call) : ℤ := (calls.map Call.net).sum

/-- What a call has added. -/
def added {τ w : Type*} : Deed τ (Result w) → ℤ
  | .returned _ .incremented => 1
  | .returned _ .decremented => -1
  | _ => 0

/-- What the critical sections have added in all. -/
def count {τ w : Type*} (d : List (Deed τ (Result w))) : ℤ := (d.map added).sum

theorem count_snoc {τ w : Type*} (d : List (Deed τ (Result w))) (e : Deed τ (Result w)) :
    count (d ++ [e]) = count d + added e := by
  simp [count]

section Counter

variable {w ι : Type*} [Add w] [Sub w] [OfNat w 1] (W : Wraps w)

/-- The call at once. -/
theorem run_critical (call : Call) (n : ℤ) :
    ((Call.critical (w := w) call).body.run (W.ofInt n)).2 = W.ofInt (n + call.net) := by
  cases call with
  | Inc => exact (W.ofInt_add_one n).symm
  | Dec => exact (W.ofInt_sub_one n).symm
  | Value => rw [Call.net, Int.add_zero]; rfl

theorem added_critical {τ : Type*} (t : τ) (call : Call) (v : w) :
    added (.returned t ((Call.critical (w := w) call).body.run v).1) = call.net := by
  cases call <;> rfl

variable [DecidableEq ι]

/-- Every `Value` in a history has returned what was counted before it. -/
def ValuesOk (d : List (Deed (Option ι) (Result w))) : Prop :=
  ∀ before t v after, d = before ++ .returned t (.value v) :: after → v = W.ofInt (count before)

/-- All goroutines have returned. -/
def Joined (a : Atomic (Option ι) Control w) : Prop := ∀ i, a.control (some i) = .calls []

variable [Fintype ι] (program : ι → List Call)

/-- What all workers change. -/
def total : ℤ := ∑ i, net (program i)

/-- What is still to be counted by a thread. -/
def Control.net : Control → ℤ
  | .calls rest => SafeCounter.net rest
  | _ => 0

/-- What holds in every state. -/
structure Ok (d : List (Deed (Option ι) (Result w))) (a : Atomic (Option ι) Control w) : Prop where
  shared : a.shared = W.ofInt (count d)
  values : ValuesOk W d
  total : count d + ∑ t, (a.control t).net = total program
  goroutine : ∀ i, ∃ rest, a.control (some i) = .calls rest
  main : a.control none = .waiting ∨ a.control none = .reading ∧ Joined a ∨
    a.control none = .returned ∧ Joined a ∧
      .returned none (.value (W.ofInt (SafeCounter.total program))) ∈ d

variable {W program} {ids : List ι} {d : List (Deed (Option ι) (Result w))}
  {a a' : Atomic (Option ι) Control w} {e : Deed (Option ι) (Result w)} {t : Option ι}

omit [DecidableEq ι] [Fintype ι] in
theorem ValuesOk.snoc (h : ValuesOk W d)
    (he : ∀ t v, e = .returned t (.value v) → v = W.ofInt (count d)) : ValuesOk W (d ++ [e]) := by
  intro before t v after hd
  rcases List.eq_nil_or_concat' after with rfl | ⟨after, e', rfl⟩
  · obtain ⟨rfl, hlast⟩ := List.append_inj' hd rfl
    cases hlast
    exact he t v rfl
  · have hsplit : d ++ [e] = (before ++ .returned t (.value v) :: after) ++ [e'] := by
      rw [hd, List.append_assoc]
      rfl
    obtain ⟨rfl, -⟩ := List.append_inj' hsplit rfl
    exact h before t v after rfl

omit [DecidableEq ι] in
theorem Ok.start (W : Wraps w) (program : ι → List Call) :
    Ok W program [] (Atomic.start (W.ofInt 0) (begins program)) where
  shared := rfl
  values before t v after h := by
    rcases List.eq_nil_or_concat' before with rfl | ⟨before, e, rfl⟩
    · cases h
    · simp at h
  total := by
    rw [Fintype.sum_option]
    exact (Int.zero_add _).trans (Int.zero_add _)
  goroutine i := ⟨program i, rfl⟩
  main := Or.inl rfl

omit [DecidableEq ι] [Fintype ι] in
/-- A call of any thread. -/
theorem call_snoc (t : Option ι) (call : Call) (hshared : a.shared = W.ofInt (count d))
    (hvalues : ValuesOk W d) :
    (call.critical.body.run a.shared).2 =
        W.ofInt (count (d ++ [.returned t (call.critical.body.run a.shared).1])) ∧
      ValuesOk W (d ++ [.returned t (call.critical.body.run a.shared).1]) := by
  constructor
  · rw [count_snoc, added_critical, hshared, run_critical]
  · apply hvalues.snoc
    intro u v he
    cases call with
    | Inc => cases he
    | Dec => cases he
    | Value =>
        cases he
        exact hshared

/-- What is still to be counted, after a call. -/
theorem total_snoc {call : Call} {k : Control}
    (h : count d + ∑ t, (a.control t).net = total program)
    (hnet : (a.control t).net = call.net + k.net) :
    count (d ++ [.returned t (call.critical.body.run a.shared).1]) +
      ∑ u, (Function.update a.control t k u).net = total program := by
  have hsum := Monitor.sum_update_add Control.net a.control t k
  rw [hnet] at hsum
  rw [count_snoc, added_critical]
  omega

/-- A goroutine makes its next call. -/
theorem Ok.step_goroutine {i : ι} (h : Ok W program d a)
    (hs : Atomic.step (code ids) a (some i) = some (e, a')) : Ok W program (d ++ [e]) a' := by
  obtain ⟨rest, hcontrol⟩ := h.goroutine i
  cases rest with
  | nil =>
      rw [Atomic.step, hcontrol] at hs
      cases hs
  | cons call rest =>
      have hcode : code (w := w) ids (a.control (some i)) =
          .locked call.critical fun _ => .calls rest := by
        rw [hcontrol]
        rfl
      obtain ⟨-, rfl, rfl⟩ := Atomic.step_locked hcode hs
      obtain ⟨hshared, hvalues⟩ := call_snoc (some i) call h.shared h.values
      -- it has not returned yet
      have hnot : ¬ Joined a := by
        intro hall
        rw [hall i] at hcontrol
        cases hcontrol
      refine ⟨hshared, hvalues, ?_, fun j => ?_, ?_⟩
      · apply total_snoc h.total
        rw [hcontrol]
        simp [Control.net, net]
      · by_cases hj : j = i
        · subst hj
          exact ⟨rest, Atomic.control_self _ _ _ _⟩
        · obtain ⟨rest', hj'⟩ := h.goroutine j
          exact ⟨rest', (Atomic.control_of_ne (by simpa using hj) _ _).trans hj'⟩
      · rcases h.main with hwaiting | ⟨-, hall⟩ | ⟨-, hall, -⟩
        · exact Or.inl ((Atomic.control_of_ne (by simp) _ _).trans hwaiting)
        · exact absurd hall hnot
        · exact absurd hall hnot

omit [DecidableEq ι] in
/-- When all goroutines have returned everything is counted. -/
theorem Ok.count_eq (h : Ok W program d a) (hmain : (a.control none).net = 0) (hall : Joined a) :
    count d = SafeCounter.total program := by
  have htotal := h.total
  rw [Fintype.sum_option, hmain, Finset.sum_eq_zero fun i _ => by rw [hall i]; rfl] at htotal
  omega

/-- The main thread waits, or reads. -/
theorem Ok.step_main (hids : ∀ i, i ∈ ids) (h : Ok W program d a)
    (hs : Atomic.step (code ids) a none = some (e, a')) : Ok W program (d ++ [e]) a' := by
  have hgoroutine : ∀ v : w, ∀ k : Control, ∀ i : ι,
      (⟨v, Function.update a.control none k⟩ : Atomic _ _ _).control (some i) =
        a.control (some i) := fun v k i => Atomic.control_of_ne (Option.some_ne_none i) v k
  have hnow : ∀ v : w, ∀ k : Control,
      (⟨v, Function.update a.control none k⟩ : Atomic _ _ _).control none = k :=
    fun v k => Atomic.control_self a.control v none k
  rcases h.main with hcontrol | ⟨hcontrol, hall⟩ | ⟨hcontrol, -, -⟩
  · have hcode : code (w := w) ids (a.control none) = .join (ids.map some) .reading := by
      rw [hcontrol]
      rfl
    obtain ⟨hfin, rfl, rfl⟩ := Atomic.step_join hcode hs
    have hall : Joined a := by
      intro i
      have hi := hfin (some i) (List.mem_map_of_mem (hids i))
      obtain ⟨rest, hrest⟩ := h.goroutine i
      rw [hrest] at hi ⊢
      cases rest with
      | nil => rfl
      | cons call rest => cases hi
    have hcount : count (d ++ [Deed.joined none]) = count d := by
      rw [count_snoc]
      exact Int.add_zero _
    refine ⟨by rw [hcount]; exact h.shared, h.values.snoc (fun t v he => by cases he), ?_,
      fun i => ?_, ?_⟩
    · have hsum := Monitor.sum_update_add Control.net a.control none .reading
      have htotal := h.total
      rw [hcontrol] at hsum
      rw [hcount]
      show _ + ∑ u, (Function.update a.control none Control.reading u).net = _
      simp only [Control.net] at hsum htotal ⊢
      omega
    · rw [hgoroutine]
      exact h.goroutine i
    · exact Or.inr (Or.inl ⟨hnow _ _, fun i => (hgoroutine _ _ i).trans (hall i)⟩)
  · have hcode : code (w := w) ids (a.control none) =
        .locked Call.Value.critical fun _ => .returned := by
      rw [hcontrol]
      rfl
    have hmain : (a.control none).net = 0 := by
      rw [hcontrol]
      rfl
    have hread : (Call.Value.critical.body.run a.shared).1 =
        .value (W.ofInt (SafeCounter.total program)) := by
      rw [← h.count_eq hmain hall, ← h.shared]
      rfl
    obtain ⟨-, rfl, rfl⟩ := Atomic.step_locked hcode hs
    obtain ⟨hshared, hvalues⟩ := call_snoc none .Value h.shared h.values
    refine ⟨hshared, hvalues, ?_, fun i => ?_, ?_⟩
    · apply total_snoc h.total
      rw [hcontrol]
      rfl
    · rw [hgoroutine]
      exact h.goroutine i
    · refine Or.inr (Or.inr ⟨hnow _ _, fun i => (hgoroutine _ _ i).trans (hall i), ?_⟩)
      rw [hread]
      exact List.mem_append_right _ List.mem_cons_self
  · rw [Atomic.step, hcontrol] at hs
    cases hs

theorem Ok.step (hids : ∀ i, i ∈ ids) (h : Ok W program d a)
    (hs : Atomic.step (code ids) a t = some (e, a')) : Ok W program (d ++ [e]) a' := by
  cases t with
  | none => exact h.step_main hids hs
  | some i => exact h.step_goroutine hs

/-! ## Every run -/

/-- The number of steps that are to come. -/
def Control.toDo : Control → ℕ
  | .calls rest => rest.length
  | .waiting => 2
  | .reading => 1
  | .returned => 0

omit [Fintype ι] in
theorem step_toDo (hs : Atomic.step (code ids) a t = some (e, a')) :
    ∃ v k, a' = ⟨v, Function.update a.control t k⟩ ∧ (a.control t).toDo = k.toDo + 1 := by
  cases hcontrol : a.control t with
  | calls rest =>
      cases rest with
      | nil =>
          rw [Atomic.step, hcontrol] at hs
          cases hs
      | cons call rest =>
          have hcode : code (w := w) ids (a.control t) =
              .locked call.critical fun _ => .calls rest := by rw [hcontrol]; rfl
          obtain ⟨-, -, rfl⟩ := Atomic.step_locked hcode hs
          exact ⟨_, _, rfl, rfl⟩
  | waiting =>
      have hcode : code (w := w) ids (a.control t) = .join (ids.map some) .reading := by
        rw [hcontrol]
        rfl
      obtain ⟨-, -, rfl⟩ := Atomic.step_join hcode hs
      exact ⟨_, _, rfl, rfl⟩
  | reading =>
      have hcode : code (w := w) ids (a.control t) =
          .locked Call.Value.critical fun _ => .returned := by rw [hcontrol]; rfl
      obtain ⟨-, -, rfl⟩ := Atomic.step_locked hcode hs
      exact ⟨_, _, rfl, rfl⟩
  | returned =>
      rw [Atomic.step, hcontrol] at hs
      cases hs

theorem halts_atomic (ids : List ι) (a : Atomic (Option ι) Control w) :
    Halts (Atomic.step (code ids)) a := by
  apply halts_of_measure (fun _ => True) (fun a => ∑ t, (a.control t).toDo) _ trivial
  intro a t e a' _ hs
  obtain ⟨v, k, rfl, htoDo⟩ := step_toDo hs
  have hsum := Monitor.sum_update_add Control.toDo a.control t k
  refine ⟨trivial, ?_⟩
  show ∑ u, (Function.update a.control t k u).toDo < ∑ u, (a.control u).toDo
  omega

/-- The atomic system comes to a halt where everybody has returned. -/
theorem Ok.stuck (h : Ok W program d a) (hstuck : ∀ t, Atomic.step (code ids) a t = none) :
    Joined a ∧ a.control none = .returned := by
  have hall : Joined a := by
    intro i
    obtain ⟨rest, hrest⟩ := h.goroutine i
    cases rest with
    | nil => exact hrest
    | cons call rest =>
        have hguard : (Call.critical (w := w) call).guard a.shared = false :=
          Atomic.guard_of_stuck (by rw [hrest]; rfl) (hstuck (some i))
        cases hguard
  refine ⟨hall, ?_⟩
  rcases h.main with hcontrol | ⟨hcontrol, -⟩ | ⟨hcontrol, -, -⟩
  · obtain ⟨u, hu, hnot⟩ := Atomic.join_of_stuck (by rw [hcontrol]; rfl) (hstuck none)
    obtain ⟨i, -, rfl⟩ := List.mem_map.mp hu
    rw [hall i] at hnot
    cases hnot
  · have hguard : (Call.critical (w := w) .Value).guard a.shared = false :=
      Atomic.guard_of_stuck (by rw [hcontrol]; rfl) (hstuck none)
    cases hguard
  · exact hcontrol

omit [Fintype ι] [DecidableEq ι] in
/-- Nobody waits for more than the lock. -/
theorem guard_of_code {k : Control} {call : Section w (Result w)} {next : Result w → Control}
    (hcode : code ids k = .locked call next) (v : w) : call.guard v = true := by
  cases k with
  | calls rest =>
      cases rest with
      | nil => cases hcode
      | cons call rest =>
          cases hcode
          rfl
  | reading =>
      cases hcode
      rfl
  | _ => cases hcode

/-- The program, with the counter at 0. -/
def step (w : Type*) [Add w] [Sub w] [OfNat w 1] (ids : List ι) :=
  Monitor.State.step (code (w := w) ids)

/-- The counter is 0. -/
def start (W : Wraps w) (program : ι → List Call) :
    Monitor.State (Option ι) Control w (Result w) :=
  .start (W.ofInt 0) (begins program)

/-- **Counters under a lock.**  No run goes on for ever.  Every `Value` returns what the calls
before it have added up to; and where a run cannot go on all threads have returned, and the main one
has read the sum of all calls. -/
theorem counter_correct (W : Wraps w) {ids : List ι} (hids : ∀ i, i ∈ ids)
    (program : ι → List Call) :
    Halts (step w ids) (start W program) ∧
    ∀ h s, Run (step w ids) anyStep (start W program) h s →
      ValuesOk W (h.filterMap deed) ∧
      ((∀ t, step w ids s t = none) →
        (∀ i, (s.thread (some i)).control = .calls []) ∧ (s.thread none).control = .returned ∧
        .returned none (.value (W.ofInt (total program))) ∈ h.filterMap deed) := by
  refine ⟨Monitor.halts_start (halts_atomic ids _), fun h s hr => ?_⟩
  have hnotifying : Monitor.Notifying (code (w := w) ids) fun _ => True := by
    intro k call next k' call' next' _ _ _ hcode' v _ _ _
    exact guard_of_code hcode' v
  obtain ⟨a, hrun, hR, hawake⟩ := Monitor.run_awake
    ⟨fun _ _ _ _ _ _ => trivial, fun _ _ _ _ _ => trivial⟩ hnotifying _ (fun _ => trivial) hr
  have hok : Ok W program (h.filterMap deed) a :=
    hrun.invariant (Ok W program) (Ok.start W program) fun _ _ _ _ _ h _ hs => h.step hids hs
  refine ⟨hok.values, fun hstuck => ?_⟩
  obtain ⟨-, hcontrol, hstuck'⟩ := Monitor.State.stuck_atomic hR hawake hstuck
  obtain ⟨hall, hover⟩ := hok.stuck hstuck'
  refine ⟨fun i => (hcontrol _).trans (hall i), (hcontrol none).trans hover, ?_⟩
  rcases hok.main with hmain | ⟨hmain, -⟩ | ⟨-, -, hread⟩
  · rw [hover] at hmain
    cases hmain
  · rw [hover] at hmain
    cases hmain
  · exact hread

end Counter

/-- Ten goroutines, each with 1000 calls of `Inc`. -/
theorem counter_correct_main :
    Halts (step Int64 (List.finRange 10)) (start int64 fun _ => List.replicate 1000 .Inc) ∧
    ∀ h s, Run (step Int64 (List.finRange 10)) anyStep
        (start int64 fun _ => List.replicate 1000 .Inc) h s →
      ValuesOk int64 (h.filterMap deed) ∧
      ((∀ t, step Int64 (List.finRange 10) s t = none) →
        (∀ i, (s.thread (some i)).control = .calls []) ∧ (s.thread none).control = .returned ∧
        .returned none (.value (int64.ofInt (total fun _ : Fin 10 => List.replicate 1000 .Inc))) ∈
          h.filterMap deed) :=
  counter_correct int64 List.mem_finRange fun _ => List.replicate 1000 .Inc

end SafeCounter

end Lock
