/-
# A pipeline of promises (`javascript/csp/promise_chain.js`)

The producer and the consumer share an object with a data channel and an acknowledgment channel,
each of them a promise with its resolver.  A promise is resolved once: after the first value the
producer goes on resolving the same promise, and waiting for the acknowledgment that it has had, and
the consumer waits for a promise that only it knows.

* `run_shape` : the states of a run;
* `delivers_iff` : every value is delivered if and only if there is at most one.
-/
import Cocurrency.Lib.Run
import Mathlib.Data.List.Infix
import Mathlib.Data.Nat.Notation
import Mathlib.Logic.Function.Basic

namespace Csp

namespace PromiseChain

/-- A function that has been attached with `then`. -/
inductive Reaction where
  | producer
  | consumer
  deriving DecidableEq, Repr

/-- A function that is to run: a reaction with the value of its promise, or the timer of the
producer. -/
inductive Job (α : Type*) where
  | producer
  | consumer (value : α)
  deriving DecidableEq, Repr

/-- The job that a settled promise gives to what waits for it. -/
def Reaction.job {α : Type*} (value : α) : Reaction → Job α
  | producer => .producer
  | consumer => .consumer value

/-- A promise: its value, once it is resolved, and the reactions that wait for it. -/
structure Promise (α : Type*) where
  value : Option α
  reactions : List Reaction

/-- The promises that have been made, the jobs that can run, and the variables: `receive` and `ack`
of the shared object, and `idx` of the producer. -/
structure State (α : Type*) where
  promise : ℕ → Promise α
  made : ℕ
  jobs : List (Job α)
  receive : ℕ
  ack : ℕ
  idx : ℕ

/-- What a job shows. -/
inductive Event (α : Type*) where
  | sent (idx : ℕ) (value : α)
  /-- All values sent. -/
  | finished
  /-- `onValue`, and the acknowledgment. -/
  | received (value : α)
  deriving DecidableEq, Repr

namespace State

variable {α : Type*}

/-- The promise of `dataChan`. -/
def dataChan : ℕ := 0

/-- The promise of `ackChan`. -/
def ackChan : ℕ := 1

/-- `resolve`: only the first call of it counts.  The value is a plain one, no promise or other
object with a `then`, which `resolve` would wait for. -/
def resolve (s : State α) (p : ℕ) (value : α) : State α :=
  match (s.promise p).value with
  | some _ => s
  | none =>
      { s with promise := Function.update s.promise p ⟨some value, []⟩,
               jobs := s.jobs ++ (s.promise p).reactions.map (Reaction.job value) }

/-- `then`. -/
def attach (s : State α) (p : ℕ) (reaction : Reaction) : State α :=
  match (s.promise p).value with
  | some value => { s with jobs := s.jobs ++ [reaction.job value] }
  | none =>
      { s with promise := Function.update s.promise p
                 ⟨none, (s.promise p).reactions ++ [reaction]⟩ }

/-- `channel()`. -/
def channel (s : State α) : State α :=
  { s with promise := Function.update s.promise s.made ⟨none, []⟩, made := s.made + 1 }

/-- Both processes have started: the producer with a timer, the consumer with `receive`. -/
def start : State α :=
  ({ promise := fun _ => ⟨none, []⟩, made := 2, jobs := [.producer], receive := dataChan,
     ack := ackChan, idx := 0 } : State α).attach dataChan .consumer

/-- `step` of the producer. -/
def producerStep (values : List α) (s : State α) : Event α × State α :=
  match values[s.idx]? with
  | none => (.finished, s)
  | some value =>
      let sent := { s with idx := s.idx + 1 }.resolve dataChan value
      (.sent s.idx value, sent.attach sent.ack .producer)

/-- What `receive` of the consumer does with a value. -/
def consumerStep (s : State α) (value : α) : Event α × State α :=
  let ack := s.made
  let acknowledged := s.channel.resolve s.ack value
  (.received value, { acknowledged with receive := ack }.attach ack .consumer)

/-- One of the jobs runs. -/
def step (values : List α) (s : State α) (i : ℕ) : Option (Event α × State α) :=
  match s.jobs[i]? with
  | none => none
  | some .producer => some ({ s with jobs := s.jobs.eraseIdx i }.producerStep values)
  | some (.consumer value) => some ({ s with jobs := s.jobs.eraseIdx i }.consumerStep value)

end State

/-- The values that `onValue` has been called with. -/
def received {α : Type*} (h : List (Event α)) : List α :=
  h.filterMap fun e => match e with
    | .received value => some value
    | _ => none

/-- The values are delivered: once each and in order, all of them once nothing is left to run; and
each one is sent only after those before it have been acknowledged. -/
structure Delivers {α : Type*} (values : List α) (h : List (Event α)) (s : State α) : Prop where
  received_prefix : received h <+: values
  received_eq : s.jobs = [] → received h = values
  acknowledged : ∀ h₁ idx value, h₁ ++ [.sent idx value] <+: h → idx ≤ (received h₁).length

/-! ## The states of a run -/

namespace State

variable {α : Type*}

/-- The first value has been sent. -/
def sending (value : α) : State α where
  promise := Function.update (Function.update start.promise dataChan ⟨some value, []⟩) ackChan
    ⟨none, [.producer]⟩
  made := 2
  jobs := [.consumer value]
  receive := dataChan
  ack := ackChan
  idx := 1

/-- The first value has been acknowledged, and `idx` values have been sent. -/
def acknowledged (value : α) (idx : ℕ) (jobs : List (Job α)) : State α where
  promise := Function.update (Function.update (Function.update (sending value).promise 2
    ⟨none, []⟩) ackChan ⟨some value, []⟩) 2 ⟨none, [.consumer]⟩
  made := 3
  jobs := jobs
  receive := 2
  ack := ackChan
  idx := idx

/-- The states that are reached, with what has been received in each. -/
inductive Shape (values : List α) : List α → State α → Prop
  | started : Shape values [] start
  | empty : values = [] → Shape values [] { start with jobs := [] }
  | sending (value : α) : values.head? = some value → Shape values [] (sending value)
  | acknowledged (value : α) (idx : ℕ) : values.head? = some value → 1 ≤ idx →
      Shape values [value] (acknowledged value idx [.producer])
  | exhausted (value : α) (idx : ℕ) : values.head? = some value → 1 ≤ idx →
      Shape values [value] (acknowledged value idx [])

variable {values : List α} {h : List (Event α)} {s s' : State α} {e : Event α} {i : ℕ}

theorem step_start (value : α) (rest : List α) :
    start.step (value :: rest) 0 = some (.sent 0 value, sending value) := rfl

theorem step_sending (value : α) :
    (sending value).step values 0 = some (.received value, acknowledged value 1 [.producer]) := rfl

/-- Another value is sent into the promise that has been resolved, and acknowledged by the value of
the promise that has been resolved. -/
theorem step_acknowledged {value next : α} {idx : ℕ} (hnext : values[idx]? = some next) :
    (acknowledged value idx [.producer]).step values 0 =
      some (.sent idx next, acknowledged value (idx + 1) [.producer]) := by
  have hproducer : ({ acknowledged value idx [.producer] with jobs := [] } :
      State α).producerStep values =
        (.sent idx next, acknowledged value (idx + 1) [.producer]) := by
    rw [producerStep]
    show (match values[idx]? with | none => _ | some value => _) = _
    rw [hnext]
    rfl
  exact congrArg some hproducer

theorem step_last {value : α} {idx : ℕ} (hnone : values[idx]? = none) :
    (acknowledged value idx [.producer]).step values 0 =
      some (.finished, acknowledged value idx []) := by
  have hproducer : ({ acknowledged value idx [.producer] with jobs := [] } :
      State α).producerStep values = (.finished, acknowledged value idx []) := by
    rw [producerStep]
    show (match values[idx]? with | none => _ | some value => _) = _
    rw [hnone]
    rfl
  exact congrArg some hproducer

theorem step_of_jobs_nil (hjobs : s.jobs = []) : s.step values i = none := by
  rw [step, hjobs]
  rfl

/-- There is never more than one job. -/
theorem eq_zero_of_step (job : Job α) (hjobs : s.jobs = [job])
    (hs : s.step values i = some (e, s')) : i = 0 := by
  cases i with
  | zero => rfl
  | succ i =>
      rw [step, hjobs] at hs
      cases hs

/-- The steps that are left. -/
def left (values : List α) (s : State α) : ℕ :=
  2 * (values.length - s.idx) + match s.jobs with
    | [] => 0
    | .producer :: _ => 1
    | .consumer _ :: _ => 2

/-- A step keeps to the states above, and it leaves fewer steps. -/
theorem Shape.step {got : List α} (hshape : Shape values got s)
    (hs : s.step values i = some (e, s')) :
    Shape values (got ++ received [e]) s' ∧ s'.left values < s.left values := by
  cases hshape with
  | started =>
      obtain rfl := eq_zero_of_step .producer rfl hs
      cases values with
      | nil =>
          cases hs
          exact ⟨.empty rfl, Nat.zero_lt_one⟩
      | cons value rest =>
          rw [step_start] at hs
          cases hs
          refine ⟨.sending value rfl, ?_⟩
          show 2 * (rest.length + 1 - 1) + 2 < 2 * (rest.length + 1) + 1
          omega
  | empty hnil =>
      rw [step_of_jobs_nil rfl] at hs
      cases hs
  | sending value hhead =>
      obtain rfl := eq_zero_of_step (.consumer value) rfl hs
      rw [step_sending] at hs
      cases hs
      exact ⟨.acknowledged value 1 hhead le_rfl, Nat.lt_succ_self _⟩
  | acknowledged value idx hhead hpos =>
      obtain rfl := eq_zero_of_step .producer rfl hs
      cases hnext : values[idx]? with
      | none =>
          rw [step_last hnext] at hs
          cases hs
          exact ⟨.exhausted value idx hhead hpos, Nat.lt_succ_self _⟩
      | some next =>
          have hlt : idx < values.length := (List.getElem?_eq_some_iff.mp hnext).1
          rw [step_acknowledged hnext] at hs
          cases hs
          refine ⟨.acknowledged value (idx + 1) hhead (Nat.le_succ_of_le hpos), ?_⟩
          show 2 * (values.length - (idx + 1)) + 1 < 2 * (values.length - idx) + 1
          omega
  | exhausted value idx hhead hpos =>
      rw [step_of_jobs_nil rfl] at hs
      cases hs

theorem received_append (h : List (Event α)) (e : Event α) :
    received (h ++ [e]) = received h ++ received [e] := List.filterMap_append

theorem run_shape (hr : Run (step values) anyStep start h s) : Shape values (received h) s := by
  refine Run.invariant (fun h s => Shape values (received h) s) .started ?_ hr
  intro h s i e s' hshape _ hs
  rw [received_append]
  exact (hshape.step hs).1

/-- No more than one value is ever received. -/
theorem Shape.length_le {got : List α} (hshape : Shape values got s) : got.length ≤ 1 := by
  cases hshape with
  | started => exact Nat.zero_le 1
  | empty hnil => exact Nat.zero_le 1
  | sending value hhead => exact Nat.zero_le 1
  | acknowledged value idx hhead hpos => exact le_rfl
  | exhausted value idx hhead hpos => exact le_rfl

theorem Shape.received_le {got : List α} (hshape : Shape values got s) : got <+: values := by
  have hfirst : ∀ value, values.head? = some value → [value] <+: values := by
    intro value hhead
    obtain ⟨rest, hvalues⟩ := List.head?_eq_some_iff.mp hhead
    rw [hvalues]
    exact ⟨rest, rfl⟩
  cases hshape with
  | started => exact List.nil_prefix
  | empty hnil => exact List.nil_prefix
  | sending value hhead => exact List.nil_prefix
  | acknowledged value idx hhead hpos => exact hfirst value hhead
  | exhausted value idx hhead hpos => exact hfirst value hhead

/-- With at most one value nothing is left out. -/
theorem Shape.eq_of_jobs_nil {got : List α} (hshape : Shape values got s)
    (hle : values.length ≤ 1) (hjobs : s.jobs = []) : got = values := by
  cases hshape with
  | started => cases hjobs
  | empty hnil => exact hnil.symm
  | sending value hhead => cases hjobs
  | acknowledged value idx hhead hpos => cases hjobs
  | exhausted value idx hhead hpos =>
      obtain ⟨rest, rfl⟩ := List.head?_eq_some_iff.mp hhead
      rw [List.length_cons] at hle
      rw [List.eq_nil_of_length_eq_zero (l := rest) (by omega)]

/-! ## Every run ends -/

/-- Some run ends with nothing left to do. -/
theorem exists_jobs_nil (values : List α) :
    ∃ h s, Run (step values) anyStep start h s ∧ s.jobs = [] := by
  have hlowers : ∀ (s : State α) i e s', (∃ got, Shape values got s) → anyStep s i →
      s.step values i = some (e, s') →
      (∃ got, Shape values got s') ∧ left values s' < left values s :=
    fun s i e s' ⟨got, hshape⟩ _ hs => ⟨⟨_, (hshape.step hs).1⟩, (hshape.step hs).2⟩
  obtain ⟨h, s, hr, hstuck⟩ := Run.exists_stuck _ _ hlowers ⟨[], .started⟩
  refine ⟨h, s, hr, ?_⟩
  have hnone := hstuck 0 trivial
  cases hjobs : s.jobs with
  | nil => rfl
  | cons job jobs =>
      rw [step, hjobs] at hnone
      cases job <;> cases hnone

/-- What is sent is a value of the list. -/
theorem idx_lt_of_sent {value : α} {idx : ℕ}
    (hs : s.step values i = some (.sent idx value, s')) : idx < values.length := by
  rw [step] at hs
  split at hs
  · cases hs
  · rw [producerStep] at hs
    split at hs
    · cases hs
    · next hvalue =>
      cases hs
      exact (List.getElem?_eq_some_iff.mp hvalue).1
  · cases hs

theorem run_idx_lt (hr : Run (step values) anyStep start h s) {idx : ℕ} {value : α}
    (hmem : Event.sent idx value ∈ h) : idx < values.length := by
  induction hr with
  | nil => exact absurd hmem List.not_mem_nil
  | snoc _ _ hs ih =>
      rcases List.mem_append.mp hmem with hmem | hmem
      · exact ih hmem
      · rw [← List.mem_singleton.mp hmem] at hs
        exact idx_lt_of_sent hs

/-- **What is delivered.**  Every value is delivered, whatever the order of the jobs, if and only if
there is at most one. -/
theorem delivers_iff (values : List α) :
    (∀ h s, Run (step values) anyStep start h s → Delivers values h s) ↔ values.length ≤ 1 := by
  constructor
  · intro hall
    obtain ⟨h, s, hr, hjobs⟩ := exists_jobs_nil values
    have hlength := (run_shape hr).length_le
    rw [(hall h s hr).received_eq hjobs] at hlength
    exact hlength
  · intro hle h s hr
    have hshape := run_shape hr
    refine ⟨hshape.received_le, fun hjobs => hshape.eq_of_jobs_nil hle hjobs, ?_⟩
    intro h₁ idx value hpre
    have hmem : Event.sent idx value ∈ h :=
      hpre.subset (List.mem_append_right _ (List.mem_singleton_self _))
    have hlt := run_idx_lt hr hmem
    omega

/-- Of two values only the first one is delivered. -/
theorem not_delivers_two : ¬ ∀ (values : List ℕ) (h : List (Event ℕ)) (s : State ℕ),
    Run (step values) anyStep start h s → Delivers values h s := by
  intro hall
  have hr := run_of_replay (step [10, 20]) (s := start) [0, 0, 0, 0] rfl
  have hreceived := (hall [10, 20] _ _ hr).received_eq rfl
  revert hreceived
  decide

end State

end PromiseChain

end Csp
