/-
# `atomically` under interleaving (`python/stm/stm_model.py`)

Any number of threads, each running any number of `atomically` calls one after the
other, as a step function.  One step of a thread is one of

* an operation of the body (a `read_tvar` that is not served by the write set is one
  section under `tvar._lock`);
* one version check of `validate` (one section under `tvar._lock`);
* one write of the loop of `commit` (one section under `tvar._lock`);
* taking or releasing `_GLOBAL_LOCK`, or a local step between these.

The scheduler's choice (`Action`) is which thread moves, and for an idle thread which
program it calls `atomically` with.  `prog p` is the body of program `p`.

Calls of `_tls` are left out: a body is given its transaction, and bodies do not call
`atomically` themselves.  The sleeps before a new attempt are left out too, since any
number of steps of other threads may come in between.
-/
import Cocurrency.Lib.Run
import Cocurrency.Stm.Transaction

namespace Stm

/-! ## States -/

/-- Why an attempt was given up and the body run again. -/
inductive Abort where
  | retryException
  | retryFlag
  | conflict
  deriving DecidableEq, Repr

/-- How the `with _GLOBAL_LOCK` block is left: by `return result`, by falling out of it
after a failed `validate`, or by an exception from `commit`. -/
inductive Leave (R : Type) where
  | returned (r : R)
  | conflict
  | raised (e : Exn)

/-- Where a thread stands in `atomically`.  A list `todo` is what a loop over
`read_set.items()` or `write_set.items()` has yet to visit. -/
inductive Phase (ι V R P : Type) where
  /-- not inside `atomically` -/
  | idle
  /-- inside `txn_func(txn)`, about to do the first operation of `cur` -/
  | body (p : P) (cur : Body ι V R) (txn : Transaction ι V)
  /-- in the first `validate`, outside the lock -/
  | validate (p : P) (txn : Transaction ι V) (r : R) (todo : List (ι × V × ℕ))
  /-- about to take `_GLOBAL_LOCK` -/
  | acquire (p : P) (txn : Transaction ι V) (r : R)
  /-- in the second `validate`, inside the lock -/
  | validateLocked (p : P) (txn : Transaction ι V) (r : R) (todo : List (ι × V × ℕ))
  /-- in the `validate` of `commit` -/
  | commitValidate (p : P) (txn : Transaction ι V) (r : R) (todo : List (ι × V × ℕ))
  /-- in the write loop of `commit` -/
  | commitWrite (p : P) (txn : Transaction ι V) (r : R) (todo : List (ι × V))
  /-- about to release `_GLOBAL_LOCK` -/
  | release (p : P) (out : Leave R)

/-- What a step did, with the thread that did it. -/
inductive Event (θ ι V R P : Type) where
  /-- `atomically` was called; its first attempt begins -/
  | call (i : θ) (p : P)
  /-- a step without effect on shared state -/
  | tau (i : θ)
  /-- a `read_tvar` section found this TVar -/
  | read (i : θ) (tid : ι) (tvar : TVar V)
  /-- a version check of `validate` went through -/
  | check (i : θ) (tid : ι)
  /-- a version check of `validate` failed -/
  | checkFailed (i : θ) (tid : ι)
  | acquire (i : θ)
  /-- `commit` has validated; its write loop begins -/
  | commitStart (i : θ) (p : P) (txn : Transaction ι V) (r : R)
  /-- one write of the loop of `commit` -/
  | write (i : θ) (tid : ι) (value : V)
  /-- `commit` returns -/
  | commit (i : θ) (p : P) (txn : Transaction ι V) (r : R)
  /-- `commit` raises -/
  | commitRaise (i : θ) (msg : String)
  /-- the attempt is given up; the next one begins -/
  | abort (i : θ) (p : P) (why : Abort)
  /-- `atomically` returns -/
  | returned (i : θ) (p : P) (r : R)
  /-- an exception leaves `atomically` -/
  | escape (i : θ) (p : P) (e : Exn)

/-- The scheduler's choice. -/
inductive Action (θ P : Type) where
  | call (i : θ) (p : P)
  | sched (i : θ)

/-- The shared state and where every thread stands. -/
structure State (θ ι V R P : Type) where
  tvars : ι → TVar V
  /-- is the TVar in the registry `_id_to_tvar`? -/
  idToTvar : ι → Bool
  globalLock : Option θ
  phase : θ → Phase ι V R P

/-- TVars made by `create_tvar`, and no thread inside `atomically`. -/
def State.create {θ ι V R P : Type} (values : ι → V) : State θ ι V R P where
  tvars := fun tid => ⟨values tid, 0⟩
  idToTvar := fun _ => true
  globalLock := none
  phase := fun _ => .idle

/-! ## Steps -/

variable {θ ι V R P : Type}

namespace State

variable [DecidableEq θ]

/-- Thread `i` moves to phase `ph`; nothing shared changes. -/
def goto (s : State θ ι V R P) (i : θ) (ph : Phase ι V R P) : State θ ι V R P :=
  { s with phase := Function.update s.phase i ph }

/-- Thread `i` takes or releases `_GLOBAL_LOCK` and moves to phase `ph`. -/
def setLock (s : State θ ι V R P) (lock : Option θ) (i : θ) (ph : Phase ι V R P) :
    State θ ι V R P :=
  { s with globalLock := lock, phase := Function.update s.phase i ph }

/-- `tvar.value = new_value; tvar.version += 1`, and thread `i` moves to phase `ph`. -/
def store [DecidableEq ι] (s : State θ ι V R P) (tid : ι) (value : V) (i : θ)
    (ph : Phase ι V R P) : State θ ι V R P :=
  { s with
    tvars := Function.update s.tvars tid ⟨value, (s.tvars tid).version + 1⟩
    phase := Function.update s.phase i ph }

end State

/-- One version check of `validate`: the TVar is registered and has the expected
version. -/
def versionOk (s : State θ ι V R P) (tid : ι) (expectedVer : ℕ) : Bool :=
  s.idToTvar tid && (s.tvars tid).version == expectedVer

/-- The re-check in the write loop of `commit`: the TVar was read, under another
version. -/
def modifiedSinceRead [DecidableEq ι] (txn : Transaction ι V) (tid : ι) (tvar : TVar V) : Bool :=
  match txn.readSet.get tid with
  | some (_, expectedVer) => tvar.version != expectedVer
  | none => false

section Step

variable [DecidableEq θ] [DecidableEq ι] (prog : P → Body ι V R)

/-- A new attempt at `prog p`. -/
def attempt (p : P) : Phase ι V R P := .body p (prog p) .init

/-- Give the attempt of thread `i` up and begin the next one. -/
def giveUp (s : State θ ι V R P) (i : θ) (p : P) (why : Abort) :
    Event θ ι V R P × State θ ι V R P :=
  (.abort i p why, s.goto i (attempt prog p))

/-- The next operation of the body, or what follows `txn_func(txn)`. -/
def stepBody (s : State θ ι V R P) (i : θ) (p : P) (txn : Transaction ι V) :
    Body ι V R → Event θ ι V R P × State θ ι V R P
  | .done r =>
      if txn.shouldRetry then giveUp prog s i p .retryFlag
      else (.tau i, s.goto i (.validate p txn r txn.readSet.items))
  | .raise e =>
      if e = .retryException then giveUp prog s i p .retryException
      else (.escape i p e, s.goto i .idle)
  | .readTvar tid k =>
      match txn.writeSet.get tid with
      | some v => (.tau i, s.goto i (.body p (k v) txn))
      | none =>
          (.read i tid (s.tvars tid),
            s.goto i (.body p (k (s.tvars tid).value) (txn.readTvar tid (s.tvars tid)).2))
  | .writeTvar tid value k => (.tau i, s.goto i (.body p k (txn.writeTvar tid value)))
  | .retryFlag k => (.tau i, s.goto i (.body p k txn.retry))
  | .shouldRetry k => (.tau i, s.goto i (.body p (k txn.shouldRetry) txn))
  | .copySets k => (.tau i, s.goto i (.body p (k txn.readSet txn.writeSet) txn))
  | .restoreSets reads writes k => (.tau i, s.goto i (.body p k (txn.restore reads writes)))

/-- One iteration of the loop of `commit`, or its end. -/
def stepCommitWrite (s : State θ ι V R P) (i : θ) (p : P) (txn : Transaction ι V) (r : R) :
    List (ι × V) → Event θ ι V R P × State θ ι V R P
  | [] => (.commit i p txn r, s.goto i (.release p (.returned r)))
  | (tid, value) :: rest =>
      if s.idToTvar tid then
        if modifiedSinceRead txn tid (s.tvars tid) then
          (.commitRaise i "Concurrent modification detected",
            s.goto i (.release p (.raised (.runtimeError "Concurrent modification detected"))))
        else (.write i tid value, s.store tid value i (.commitWrite p txn r rest))
      else (.tau i, s.goto i (.commitWrite p txn r rest)) -- `tvar is None`

/-- Leaving the `with _GLOBAL_LOCK` block. -/
def stepRelease (s : State θ ι V R P) (i : θ) (p : P) :
    Leave R → Event θ ι V R P × State θ ι V R P
  | .returned r => (.returned i p r, s.setLock none i .idle)
  | .conflict => (.abort i p .conflict, s.setLock none i (attempt prog p))
  | .raised e => (.escape i p e, s.setLock none i .idle)

/-- The next step of thread `i`, if it is not idle and not waiting for the lock. -/
def advance (s : State θ ι V R P) (i : θ) : Option (Event θ ι V R P × State θ ι V R P) :=
  match s.phase i with
  | .idle => none
  | .body p cur txn => some (stepBody prog s i p txn cur)
  | .validate p txn r [] => some (.tau i, s.goto i (.acquire p txn r))
  | .validate p txn r ((tid, _, expectedVer) :: rest) =>
      if versionOk s tid expectedVer then
        some (.check i tid, s.goto i (.validate p txn r rest))
      else some (giveUp prog s i p .conflict)
  | .acquire p txn r =>
      match s.globalLock with
      | none =>
          some (.acquire i, s.setLock (some i) i (.validateLocked p txn r txn.readSet.items))
      | some _ => none -- the thread waits
  | .validateLocked p txn r [] =>
      some (.tau i, s.goto i (.commitValidate p txn r txn.readSet.items))
  | .validateLocked p txn r ((tid, _, expectedVer) :: rest) =>
      if versionOk s tid expectedVer then
        some (.check i tid, s.goto i (.validateLocked p txn r rest))
      else some (.checkFailed i tid, s.goto i (.release p .conflict))
  | .commitValidate p txn r [] =>
      some (.commitStart i p txn r, s.goto i (.commitWrite p txn r txn.writeSet.items))
  | .commitValidate p txn r ((tid, _, expectedVer) :: rest) =>
      if versionOk s tid expectedVer then
        some (.check i tid, s.goto i (.commitValidate p txn r rest))
      else
        some (.commitRaise i "Transaction conflict — should retry",
          s.goto i (.release p (.raised (.runtimeError "Transaction conflict — should retry"))))
  | .commitWrite p txn r todo => some (stepCommitWrite s i p txn r todo)
  | .release p out => some (stepRelease prog s i p out)

/-- A step of the system. -/
def step (s : State θ ι V R P) : Action θ P → Option (Event θ ι V R P × State θ ι V R P)
  | .call i p =>
      match s.phase i with
      | .idle => some (.call i p, s.goto i (attempt prog p))
      | _ => none
  | .sched i => advance prog s i

end Step

end Stm
