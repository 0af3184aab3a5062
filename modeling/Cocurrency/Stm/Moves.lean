/-
# What one step of `atomically` can do

The inversion lemma of the step function: `step_move` lists every transition of a
thread with its guards, so that no later proof unfolds `step`.  The frame facts
follow: who moves, what a step leaves alone, which event changes a TVar.
-/
import Mathlib.Logic.Function.Basic
import Cocurrency.Stm.Atomically

namespace Stm

variable {θ ι V R P : Type}

/-! ## The shared part of a state after a step -/

namespace State

variable [DecidableEq θ] (s : State θ ι V R P) (i j : θ) (ph : Phase ι V R P) (lock : Option θ)

@[simp] theorem tvars_goto : (s.goto i ph).tvars = s.tvars := rfl
@[simp] theorem globalLock_goto : (s.goto i ph).globalLock = s.globalLock := rfl
@[simp] theorem globalLock_setLock : (s.setLock lock i ph).globalLock = lock := rfl

@[simp] theorem phase_goto_self : (s.goto i ph).phase i = ph := Function.update_self ..
@[simp] theorem phase_setLock_self : (s.setLock lock i ph).phase i = ph :=
  Function.update_self ..

variable {i j}

theorem phase_goto_of_ne (h : j ≠ i) : (s.goto i ph).phase j = s.phase j :=
  Function.update_of_ne h ..

theorem phase_setLock_of_ne (h : j ≠ i) : (s.setLock lock i ph).phase j = s.phase j :=
  Function.update_of_ne h ..

variable [DecidableEq ι] (tid : ι) (value : V)

@[simp] theorem phase_store_self : (s.store tid value i ph).phase i = ph :=
  Function.update_self ..

/-- The TVar that is stored has its value and the next version. -/
theorem tvars_store : (s.store tid value i ph).tvars =
    Function.update s.tvars tid ⟨value, (s.tvars tid).version + 1⟩ := rfl

end State

/-! ## The transitions -/

/-- The operations of a body that touch no shared state. -/
inductive BodyTau [DecidableEq ι] :
    Body ι V R → Transaction ι V → Body ι V R → Transaction ι V → Prop
  | written {tid k txn v} (h : txn.writeSet.get tid = some v) :
      BodyTau (.readTvar tid k) txn (k v) txn
  | writeTvar {tid value k txn} : BodyTau (.writeTvar tid value k) txn k (txn.writeTvar tid value)
  | retryFlag {k txn} : BodyTau (.retryFlag k) txn k txn.retry
  | shouldRetry {k txn} : BodyTau (.shouldRetry k) txn (k txn.shouldRetry) txn
  | copySets {k txn} : BodyTau (.copySets k) txn (k txn.readSet txn.writeSet) txn
  | restoreSets {reads writes k txn} :
      BodyTau (.restoreSets reads writes k) txn k (txn.restore reads writes)

variable [DecidableEq θ] [DecidableEq ι] (prog : P → Body ι V R)

/-- The transitions of thread `i` in state `s`. -/
inductive Move (s : State θ ι V R P) (i : θ) : Event θ ι V R P → State θ ι V R P → Prop
  | call {p} (h : s.phase i = .idle) : Move s i (.call i p) (s.goto i (attempt prog p))
  | op {p cur txn cur' txn'} (h : s.phase i = .body p cur txn)
      (hop : BodyTau cur txn cur' txn') : Move s i (.tau i) (s.goto i (.body p cur' txn'))
  | read {p tid k txn} (h : s.phase i = .body p (.readTvar tid k) txn)
      (hw : txn.writeSet.get tid = none) :
      Move s i (.read i tid (s.tvars tid))
        (s.goto i (.body p (k (s.tvars tid).value) (txn.readTvar tid (s.tvars tid)).2))
  | bodyDone {p r txn} (h : s.phase i = .body p (.done r) txn) (hf : txn.shouldRetry = false) :
      Move s i (.tau i) (s.goto i (.validate p txn r txn.readSet.items))
  | bodyFlag {p r txn} (h : s.phase i = .body p (.done r) txn) (hf : txn.shouldRetry = true) :
      Move s i (.abort i p .retryFlag) (s.goto i (attempt prog p))
  | bodyRetry {p txn} (h : s.phase i = .body p (.raise .retryException) txn) :
      Move s i (.abort i p .retryException) (s.goto i (attempt prog p))
  | bodyEscape {p e txn} (h : s.phase i = .body p (.raise e) txn) (he : e ≠ .retryException) :
      Move s i (.escape i p e) (s.goto i .idle)
  | check {p txn r tid v ver rest} (h : s.phase i = .validate p txn r ((tid, v, ver) :: rest))
      (hv : versionOk s tid ver = true) :
      Move s i (.check i tid) (s.goto i (.validate p txn r rest))
  | checkFailed {p txn r tid v ver rest}
      (h : s.phase i = .validate p txn r ((tid, v, ver) :: rest))
      (hv : versionOk s tid ver = false) :
      Move s i (.abort i p .conflict) (s.goto i (attempt prog p))
  | validated {p txn r} (h : s.phase i = .validate p txn r []) :
      Move s i (.tau i) (s.goto i (.acquire p txn r))
  | acquire {p txn r} (h : s.phase i = .acquire p txn r) (hl : s.globalLock = none) :
      Move s i (.acquire i) (s.setLock (some i) i (.validateLocked p txn r txn.readSet.items))
  | checkLocked {p txn r tid v ver rest}
      (h : s.phase i = .validateLocked p txn r ((tid, v, ver) :: rest))
      (hv : versionOk s tid ver = true) :
      Move s i (.check i tid) (s.goto i (.validateLocked p txn r rest))
  | checkLockedFailed {p txn r tid v ver rest}
      (h : s.phase i = .validateLocked p txn r ((tid, v, ver) :: rest))
      (hv : versionOk s tid ver = false) :
      Move s i (.checkFailed i tid) (s.goto i (.release p .conflict))
  | validatedLocked {p txn r} (h : s.phase i = .validateLocked p txn r []) :
      Move s i (.tau i) (s.goto i (.commitValidate p txn r txn.readSet.items))
  | checkCommit {p txn r tid v ver rest}
      (h : s.phase i = .commitValidate p txn r ((tid, v, ver) :: rest))
      (hv : versionOk s tid ver = true) :
      Move s i (.check i tid) (s.goto i (.commitValidate p txn r rest))
  | checkCommitFailed {p txn r tid v ver rest}
      (h : s.phase i = .commitValidate p txn r ((tid, v, ver) :: rest))
      (hv : versionOk s tid ver = false) :
      Move s i (.commitRaise i "Transaction conflict — should retry")
        (s.goto i (.release p (.raised (.runtimeError "Transaction conflict — should retry"))))
  | commitStart {p txn r} (h : s.phase i = .commitValidate p txn r []) :
      Move s i (.commitStart i p txn r) (s.goto i (.commitWrite p txn r txn.writeSet.items))
  | write {p txn r tid value rest} (h : s.phase i = .commitWrite p txn r ((tid, value) :: rest))
      (hreg : s.idToTvar tid = true) (hm : modifiedSinceRead txn tid (s.tvars tid) = false) :
      Move s i (.write i tid value) (s.store tid value i (.commitWrite p txn r rest))
  | writeRaise {p txn r tid value rest}
      (h : s.phase i = .commitWrite p txn r ((tid, value) :: rest))
      (hm : modifiedSinceRead txn tid (s.tvars tid) = true) :
      Move s i (.commitRaise i "Concurrent modification detected")
        (s.goto i (.release p (.raised (.runtimeError "Concurrent modification detected"))))
  | writeSkip {p txn r tid value rest}
      (h : s.phase i = .commitWrite p txn r ((tid, value) :: rest))
      (hreg : s.idToTvar tid = false) :
      Move s i (.tau i) (s.goto i (.commitWrite p txn r rest))
  | commit {p txn r} (h : s.phase i = .commitWrite p txn r []) :
      Move s i (.commit i p txn r) (s.goto i (.release p (.returned r)))
  | releaseReturned {p r} (h : s.phase i = .release p (.returned r)) :
      Move s i (.returned i p r) (s.setLock none i .idle)
  | releaseConflict {p} (h : s.phase i = .release p .conflict) :
      Move s i (.abort i p .conflict) (s.setLock none i (attempt prog p))
  | releaseRaised {p e} (h : s.phase i = .release p (.raised e)) :
      Move s i (.escape i p e) (s.setLock none i .idle)

/-- The thread a choice lets move. -/
def Action.thread : Action θ P → θ
  | .call i _ => i
  | .sched i => i

variable {prog}

/-- A step of the body. -/
theorem stepBody_move {s : State θ ι V R P} {i : θ} {p : P} {cur : Body ι V R}
    {txn : Transaction ι V} (h : s.phase i = .body p cur txn) :
    Move prog s i (stepBody prog s i p txn cur).1 (stepBody prog s i p txn cur).2 := by
  cases cur with
  | done r =>
      rw [stepBody]
      cases hf : txn.shouldRetry with
      | true => exact .bodyFlag h hf
      | false => exact .bodyDone h hf
  | raise e =>
      rw [stepBody]
      by_cases he : e = .retryException
      · subst he
        exact .bodyRetry h
      · rw [if_neg he]
        exact .bodyEscape h he
  | readTvar tid k =>
      rw [stepBody]
      cases hw : txn.writeSet.get tid with
      | some v => exact .op h (.written hw)
      | none => exact .read h hw
  | writeTvar tid value k => exact .op h .writeTvar
  | retryFlag k => exact .op h .retryFlag
  | shouldRetry k => exact .op h .shouldRetry
  | copySets k => exact .op h .copySets
  | restoreSets reads writes k => exact .op h .restoreSets

/-- A step of the write loop. -/
theorem stepCommitWrite_move {s : State θ ι V R P} {i : θ} {p : P} {txn : Transaction ι V} {r : R}
    {todo : List (ι × V)} (h : s.phase i = .commitWrite p txn r todo) :
    Move prog s i (stepCommitWrite s i p txn r todo).1 (stepCommitWrite s i p txn r todo).2 := by
  rcases todo with _ | ⟨⟨tid, value⟩, rest⟩
  · exact .commit h
  · rw [stepCommitWrite]
    cases hreg : s.idToTvar tid with
    | false => exact .writeSkip h hreg
    | true =>
        cases hm : modifiedSinceRead txn tid (s.tvars tid) with
        | false => exact .write h hreg hm
        | true => exact .writeRaise h hm

/-- A step of a thread. -/
theorem advance_move {s s' : State θ ι V R P} {i : θ} {e : Event θ ι V R P}
    (hs : advance prog s i = some (e, s')) : Move prog s i e s' := by
  rw [advance] at hs
  split at hs
  · cases hs
  · next p cur txn h =>
    have hm : Move prog s i _ _ := stepBody_move h
    rw [Option.some.inj hs] at hm
    exact hm
  · next p txn r h =>
    cases hs
    exact .validated h
  · next p txn r tid v ver rest h =>
    split at hs
    · next hv =>
      cases hs
      exact .check h hv
    · next hv =>
      cases hs
      exact .checkFailed h (by simpa using hv)
  · next p txn r h =>
    split at hs
    · next hl =>
      cases hs
      exact .acquire h hl
    · cases hs
  · next p txn r h =>
    cases hs
    exact .validatedLocked h
  · next p txn r tid v ver rest h =>
    split at hs
    · next hv =>
      cases hs
      exact .checkLocked h hv
    · next hv =>
      cases hs
      exact .checkLockedFailed h (by simpa using hv)
  · next p txn r h =>
    cases hs
    exact .commitStart h
  · next p txn r tid v ver rest h =>
    split at hs
    · next hv =>
      cases hs
      exact .checkCommit h hv
    · next hv =>
      cases hs
      exact .checkCommitFailed h (by simpa using hv)
  · next p txn r todo h =>
    have hm : Move prog s i _ _ := stepCommitWrite_move h
    rw [Option.some.inj hs] at hm
    exact hm
  · next p out h =>
    rcases out with r | _ | e <;> cases hs
    · exact .releaseReturned h
    · exact .releaseConflict h
    · exact .releaseRaised h

/-- **Inversion.**  A step is a transition of the thread it schedules. -/
theorem step_move {s s' : State θ ι V R P} {a : Action θ P} {e : Event θ ι V R P}
    (hs : step prog s a = some (e, s')) : Move prog s a.thread e s' := by
  cases a with
  | call i p =>
      rw [step] at hs
      split at hs
      · next h =>
        cases hs
        exact .call h
      · cases hs
  | sched i => exact advance_move hs

/-! ## Frame -/

namespace Move

variable {s s' : State θ ι V R P} {i j : θ} {e : Event θ ι V R P}

/-- The registry does not change. -/
theorem idToTvar_eq (hm : Move prog s i e s') : s'.idToTvar = s.idToTvar := by
  cases hm <;> rfl

/-- Other threads stay where they are. -/
theorem phase_of_ne (hm : Move prog s i e s') (hj : j ≠ i) : s'.phase j = s.phase j := by
  cases hm <;> exact Function.update_of_ne hj ..

end Move

/-- The effect of an event on the TVars: only a write of a commit has one. -/
def applyEvent (tvars : ι → TVar V) : Event θ ι V R P → ι → TVar V
  | .write _ tid value => Function.update tvars tid ⟨value, (tvars tid).version + 1⟩
  | _ => tvars

/-- Each step changes the store as its event says. -/
theorem Move.tvars_eq {s s' : State θ ι V R P} {i : θ} {e : Event θ ι V R P}
    (hm : Move prog s i e s') : s'.tvars = applyEvent s.tvars e := by
  cases hm <;> rfl

omit [DecidableEq θ] in
/-- Versions never go down, and a TVar whose version is unchanged is unchanged. -/
theorem version_applyEvent (tvars : ι → TVar V) (e : Event θ ι V R P) (tid : ι) :
    (applyEvent tvars e tid = tvars tid) ∨
      (tvars tid).version < (applyEvent tvars e tid).version := by
  cases e with
  | write j t value =>
      by_cases h : tid = t
      · subst h
        right
        simp [applyEvent]
      · left
        simp [applyEvent, Function.update_of_ne h]
  | _ => exact Or.inl rfl

end Stm
