/-
# `atomically` in a coroutine (`lua/stm/stm_bank.lua`)

The transactions of the Lua STM, and `atomically` as a coroutine that is resumed again and again,
while others may change TVars whenever it is suspended.

`pcall` catches every error of the body, and what follows is the same as for a conflict: a `yield`
and another attempt (with an error there are two of them, `"retry"` and `"conflict"`).  So an error
never reaches the caller of `atomically`.  If nobody changes what the body reads, it fails again
each time, and the coroutine never ends (`errors_are_retried`).
-/
import Cocurrency.Lib.Dict
import Cocurrency.Lib.Run
import Cocurrency.Stm.Transaction
import Mathlib.Data.Int.Notation

namespace Stm.Lua

/-! ## Transactions -/

/-- A transaction, as a table of its three fields. -/
structure Transaction (ι V : Type) where
  readSet : Dict ι (V × ℕ)
  writeSet : Dict ι V
  shouldRetry : Bool

namespace Transaction

variable {ι V : Type}

/-- `Transaction.new`. -/
def new : Transaction ι V := ⟨Dict.empty, Dict.empty, false⟩

variable [DecidableEq ι]

/-- `read_tvar`. -/
def readTvar (txn : Transaction ι V) (tid : ι) (tvar : TVar V) : V × Transaction ι V :=
  match txn.writeSet.get tid with
  | some value => (value, txn)
  | none => (tvar.value, { txn with readSet := txn.readSet.set tid (tvar.value, tvar.version) })

/-- `write_tvar`. -/
def writeTvar (txn : Transaction ι V) (tid : ι) (value : V) : Transaction ι V :=
  { txn with writeSet := txn.writeSet.set tid value }

omit [DecidableEq ι] in
/-- `validate`. -/
def validate (txn : Transaction ι V) (tvars : ι → TVar V) : Bool :=
  txn.readSet.items.all fun (tid, _, version) => (tvars tid).version == version

/-- `commit`: the TVars afterwards. -/
def commit (txn : Transaction ι V) (tvars : ι → TVar V) : ι → TVar V :=
  txn.writeSet.items.foldl
    (fun tvars (tid, value) => Function.update tvars tid ⟨value, (tvars tid).version + 1⟩) tvars

end Transaction

/-- The function that is given to `atomically`: it may yield, too. -/
inductive Body (ι V R E : Type) where
  | done (result : R)
  | error (e : E)
  | readTvar (tid : ι) (k : V → Body ι V R E)
  | writeTvar (tid : ι) (value : V) (k : Body ι V R E)
  | yield (k : Body ι V R E)

/-- Where a body stops. -/
inductive Stop (ι V R E : Type) where
  | done (result : R) (txn : Transaction ι V)
  | error (e : E)
  | yielded (k : Body ι V R E) (txn : Transaction ι V)

/-- How a body ends, what it reads on the way from TVars, and how often it yields. -/
structure Course (ι R E : Type) where
  outcome : Except E R
  reads : List ι
  yields : ℕ

namespace Body

variable {ι V R E : Type} [DecidableEq ι]

/-- Run a body until it stops. -/
def resume (tvars : ι → TVar V) : Body ι V R E → Transaction ι V → Stop ι V R E
  | done result, txn => .done result txn
  | error e, _ => .error e
  | readTvar tid k, txn =>
      match txn.writeSet.get tid with
      | some value => (k value).resume tvars txn
      | none => (k (tvars tid).value).resume tvars (txn.readTvar tid (tvars tid)).2
  | writeTvar tid value k, txn => k.resume tvars (txn.writeTvar tid value)
  | yield k, txn => .yielded k txn

/-- The run of a body to its end, on TVars that do not change. -/
def alone (tvars : ι → TVar V) : Body ι V R E → Transaction ι V → Course ι R E
  | done result, _ => ⟨.ok result, [], 0⟩
  | error e, _ => ⟨.error e, [], 0⟩
  | readTvar tid k, txn =>
      match txn.writeSet.get tid with
      | some value => (k value).alone tvars txn
      | none =>
          let course := (k (tvars tid).value).alone tvars (txn.readTvar tid (tvars tid)).2
          { course with reads := tid :: course.reads }
  | writeTvar tid value k, txn => k.alone tvars (txn.writeTvar tid value)
  | yield k, txn =>
      let course := k.alone tvars txn
      { course with yields := course.yields + 1 }

end Body

/-! ## The coroutine -/

section Coroutine

variable {ι V R E : Type}

/-- Where a coroutine that runs `atomically` stands. -/
inductive Phase (ι V R E : Type) where
  | start
  /-- Suspended in the body. -/
  | inBody (cur : Body ι V R E) (txn : Transaction ι V)
  /-- Suspended in `coroutine.yield("retry")`. -/
  | retry
  /-- Suspended in `coroutine.yield("conflict")`. -/
  | conflict
  | returned (result : R)
  /-- An error has left `atomically`. -/
  | raised (e : E)

/-- The TVars, and where the coroutine is. -/
structure State (ι V R E : Type) where
  tvars : ι → TVar V
  phase : Phase ι V R E

/-- What a step shows. -/
inductive Event where
  /-- The coroutine is resumed, and runs `fn` from its beginning. -/
  | attempt
  | resumed
  /-- Others have changed TVars. -/
  | changed
  deriving DecidableEq

/-- The coroutine is resumed, or others change TVars. -/
inductive Action (ι V : Type) where
  | resume
  | others (tvars : ι → TVar V)

variable [DecidableEq ι]

/-- What `atomically` does when its body has stopped. -/
def afterBody (tvars : ι → TVar V) : Stop ι V R E → State ι V R E
  | .error _ => ⟨tvars, .retry⟩
  | .done result txn =>
      if txn.validate tvars then ⟨txn.commit tvars, .returned result⟩ else ⟨tvars, .conflict⟩
  | .yielded k txn => ⟨tvars, .inBody k txn⟩

/-- `atomically(fn)`: from one `yield` to the next, or to its end. -/
def step (fn : Body ι V R E) (s : State ι V R E) :
    Action ι V → Option (Event × State ι V R E)
  | .resume =>
      match s.phase with
      | .start | .conflict => some (.attempt, afterBody s.tvars (fn.resume s.tvars .new))
      | .inBody cur txn => some (.resumed, afterBody s.tvars (cur.resume s.tvars txn))
      | .retry => some (.resumed, ⟨s.tvars, .conflict⟩)
      | .returned _ | .raised _ => none
  | .others tvars => some (.changed, ⟨tvars, s.phase⟩)

/-- Nobody else is there. -/
def OnlyResumed (_ : State ι V R E) : Action ι V → Prop
  | .resume => True
  | .others _ => False

/-- Others leave these TVars alone. -/
def Spares (reads : List ι) (s : State ι V R E) : Action ι V → Prop
  | .resume => True
  | .others tvars => ∀ tid ∈ reads, tvars tid = s.tvars tid

/-- `fn` fails with the error `e` on these TVars. -/
def Fails (fn : Body ι V R E) (tvars : ι → TVar V) (e : E) : Prop :=
  (fn.alone tvars .new).outcome = .error e

/-- `atomically(fn)` passes the error to its caller, has changed no TVar, and has run `fn` once. -/
def PassesError (fn : Body ι V R E) (tvars : ι → TVar V) (e : E) : Prop :=
  ∃ h s, Run (step fn) OnlyResumed ⟨tvars, .start⟩ h s ∧ s.phase = .raised e ∧ s.tvars = tvars ∧
    h.count .attempt = 1

end Coroutine

/-! ## The body -/

namespace Body

variable {ι V R E : Type} [DecidableEq ι]

section Equations

variable (tvars : ι → TVar V) {txn : Transaction ι V} {tid : ι} (k : V → Body ι V R E)

theorem resume_written {value : V} (hw : txn.writeSet.get tid = some value) :
    (readTvar tid k).resume tvars txn = (k value).resume tvars txn := by
  rw [resume, hw]

theorem resume_not_written (hw : txn.writeSet.get tid = none) :
    (readTvar tid k).resume tvars txn =
      (k (tvars tid).value).resume tvars (txn.readTvar tid (tvars tid)).2 := by
  rw [resume, hw]

theorem alone_written {value : V} (hw : txn.writeSet.get tid = some value) :
    (readTvar tid k).alone tvars txn = (k value).alone tvars txn := by
  rw [alone, hw]

theorem alone_not_written (hw : txn.writeSet.get tid = none) :
    (readTvar tid k).alone tvars txn =
      { (k (tvars tid).value).alone tvars (txn.readTvar tid (tvars tid)).2 with
        reads := tid :: ((k (tvars tid).value).alone tvars (txn.readTvar tid (tvars tid)).2).reads
      } := by
  rw [alone, hw]

end Equations

/-- What is not read does not matter. -/
theorem alone_congr {tvars tvars' : ι → TVar V} (cur : Body ι V R E) (txn : Transaction ι V)
    (heq : ∀ tid ∈ (cur.alone tvars txn).reads, tvars' tid = tvars tid) :
    cur.alone tvars' txn = cur.alone tvars txn := by
  induction cur generalizing txn with
  | done result => rfl
  | error e => rfl
  | readTvar tid k ih =>
      cases hw : txn.writeSet.get tid with
      | some value =>
          rw [alone_written _ k hw] at heq ⊢
          rw [alone_written _ k hw]
          exact ih value txn heq
      | none =>
          rw [alone_not_written _ k hw] at heq ⊢
          rw [alone_not_written _ k hw, heq tid List.mem_cons_self,
            ih _ _ fun t ht => heq t (List.mem_cons_of_mem tid ht)]
  | writeTvar tid value k ih => exact ih _ heq
  | yield k ih =>
      show (⟨_, _, _⟩ : Course ι R E) = ⟨_, _, _⟩
      rw [ih txn heq]

/-- A body that is to fail stops with the error, or goes on to fail after a `yield`. -/
theorem resume_of_fails {tvars : ι → TVar V} {e : E} (cur : Body ι V R E) (txn : Transaction ι V)
    (hfails : (cur.alone tvars txn).outcome = .error e) :
    cur.resume tvars txn = .error e ∨
      ∃ k txn', cur.resume tvars txn = .yielded k txn' ∧
        (k.alone tvars txn').outcome = .error e ∧
        (∀ tid ∈ (k.alone tvars txn').reads, tid ∈ (cur.alone tvars txn).reads) ∧
        (k.alone tvars txn').yields < (cur.alone tvars txn).yields := by
  induction cur generalizing txn with
  | done result => cases hfails
  | error e' =>
      cases hfails
      exact Or.inl rfl
  | readTvar tid k ih =>
      cases hw : txn.writeSet.get tid with
      | some value =>
          rw [alone_written _ k hw] at hfails ⊢
          rw [resume_written _ k hw]
          exact ih value txn hfails
      | none =>
          rw [alone_not_written _ k hw] at hfails ⊢
          rw [resume_not_written _ k hw]
          rcases ih _ _ hfails with hstop | ⟨k', txn', hstop, houtcome, hreads, hyields⟩
          · exact Or.inl hstop
          · right
            refine ⟨k', txn', hstop, houtcome, fun t ht => ?_, hyields⟩
            exact List.mem_cons_of_mem tid (hreads t ht)
  | writeTvar tid value k ih => exact ih _ hfails
  | yield k ih => exact Or.inr ⟨k, txn, rfl, hfails, fun tid ht => ht, Nat.lt_succ_self _⟩

end Body

/-! ## The loop -/

variable {ι V R E : Type} [DecidableEq ι] {fn : Body ι V R E} {tvars : ι → TVar V} {e : E}

/-- The coroutine is on its way to fail, or to another attempt. -/
def Phase.Retrying (s : State ι V R E) (reads : List ι) (e : E) : Phase ι V R E → Prop
  | .start | .retry | .conflict => True
  | .inBody cur txn =>
      (cur.alone s.tvars txn).outcome = .error e ∧
        ∀ tid ∈ (cur.alone s.tvars txn).reads, tid ∈ reads
  | .returned _ | .raised _ => False

/-- What holds as long as the TVars that `fn` reads are spared. -/
structure Retrying (fn : Body ι V R E) (tvars : ι → TVar V) (e : E) (s : State ι V R E) :
    Prop where
  spared : ∀ tid ∈ (fn.alone tvars .new).reads, s.tvars tid = tvars tid
  phase : s.phase.Retrying s (fn.alone tvars .new).reads e

theorem Retrying.afterBody {s : State ι V R E} (hr : Retrying fn tvars e s)
    (cur : Body ι V R E) (txn : Transaction ι V)
    (hfails : (cur.alone s.tvars txn).outcome = .error e)
    (hreads : ∀ tid ∈ (cur.alone s.tvars txn).reads, tid ∈ (fn.alone tvars .new).reads) :
    Retrying fn tvars e (Lua.afterBody s.tvars (cur.resume s.tvars txn)) := by
  rcases cur.resume_of_fails txn hfails with hstop | ⟨k, txn', hstop, houtcome, hsub, -⟩
  · rw [hstop]
    exact ⟨hr.spared, trivial⟩
  · rw [hstop]
    exact ⟨hr.spared, houtcome, fun tid ht => hreads tid (hsub tid ht)⟩

/-- The next attempt fails like the first one. -/
theorem Retrying.alone_eq {s : State ι V R E} (hr : Retrying fn tvars e s) :
    fn.alone s.tvars .new = fn.alone tvars .new :=
  fn.alone_congr .new hr.spared

theorem Retrying.step {s s' : State ι V R E} {a : Action ι V} {x : Event}
    (hfails : Fails fn tvars e) (hr : Retrying fn tvars e s)
    (hok : Spares (fn.alone tvars .new).reads s a) (hs : step fn s a = some (x, s')) :
    Retrying fn tvars e s' := by
  have halone := hr.alone_eq
  have hattempt := hr.afterBody fn .new (by rw [halone]; exact hfails) (by rw [halone]; simp)
  cases a with
  | others tvars' =>
      cases hs
      constructor
      · intro tid ht
        exact (hok tid ht).trans (hr.spared tid ht)
      · have hphase := hr.phase
        cases hp : s.phase with
        | inBody cur txn =>
            rw [hp] at hphase
            obtain ⟨houtcome, hreads⟩ := hphase
            have hcongr := cur.alone_congr txn fun tid ht => hok tid (hreads tid ht)
            show (cur.alone tvars' txn).outcome = .error e ∧ _
            rw [hcongr]
            exact ⟨houtcome, hreads⟩
        | start | retry | conflict => trivial
        | returned result | raised e' =>
            rw [hp] at hphase
            exact hphase.elim
  | resume =>
      unfold Lua.step at hs
      have hphase := hr.phase
      cases hp : s.phase with
      | start | conflict =>
          simp only [hp] at hs
          cases hs
          exact hattempt
      | retry =>
          simp only [hp] at hs
          cases hs
          exact ⟨hr.spared, trivial⟩
      | inBody cur txn =>
          simp only [hp] at hs
          cases hs
          rw [hp] at hphase
          exact hr.afterBody cur txn hphase.1 hphase.2
      | returned result | raised e' =>
          rw [hp] at hphase
          exact hphase.elim

theorem run_resume {s s' : State ι V R E} {x : Event}
    (hs : Lua.step fn s .resume = some (x, s')) : Run (Lua.step fn) OnlyResumed s [x] s' := by
  have hok : OnlyResumed s (.resume : Action ι V) := trivial
  exact Run.nil.snoc hok hs

/-- A resumed coroutine that is on its way to fail runs `fn` again at some time. -/
theorem Retrying.exists_attempt {s : State ι V R E} (hr : Retrying fn tvars e s) :
    ∃ h s', Run (Lua.step fn) OnlyResumed s h s' ∧ .attempt ∈ h := by
  have hretry : ∀ store : ι → TVar V, ∃ h s',
      Run (Lua.step fn) OnlyResumed ⟨store, .retry⟩ h s' ∧ .attempt ∈ h := by
    intro store
    have hr₁ : Run (Lua.step fn) OnlyResumed ⟨store, .retry⟩ [.resumed] ⟨store, .conflict⟩ :=
      run_resume rfl
    exact ⟨_, _, hr₁.trans (run_resume rfl), by simp⟩
  have hbody : ∀ n store cur txn, (Body.alone store cur txn).outcome = .error e →
      (Body.alone store cur txn).yields = n → ∃ h s',
        Run (Lua.step fn) OnlyResumed ⟨store, .inBody cur txn⟩ h s' ∧ .attempt ∈ h := by
    intro n
    induction n using Nat.strongRecOn with
    | _ n ih =>
        intro store cur txn houtcome hyields
        have hfirst : Run (Lua.step fn) OnlyResumed ⟨store, .inBody cur txn⟩ [.resumed]
            (Lua.afterBody store (cur.resume store txn)) := run_resume rfl
        rcases cur.resume_of_fails txn houtcome with hstop | ⟨k, txn', hstop, hk, -, hlt⟩
        · rw [hstop] at hfirst
          obtain ⟨h, s', hrun, hmem⟩ := hretry store
          exact ⟨_, s', hfirst.trans hrun, List.mem_append_right _ hmem⟩
        · rw [hstop] at hfirst
          obtain ⟨h, s', hrun, hmem⟩ := ih _ (hyields ▸ hlt) store k txn' hk rfl
          exact ⟨_, s', hfirst.trans hrun, List.mem_append_right _ hmem⟩
  obtain ⟨store, phase⟩ := s
  have hphase := hr.phase
  cases phase with
  | start | conflict => exact ⟨_, _, run_resume rfl, List.mem_singleton_self _⟩
  | retry => exact hretry store
  | inBody cur txn => exact hbody _ store cur txn hphase.1 rfl
  | returned result | raised e' => exact hphase.elim

/-- An attempt that has failed is not the end. -/
theorem Retrying.not_ended {s : State ι V R E} (hr : Retrying fn tvars e s) :
    (∀ result, s.phase ≠ .returned result) ∧ ∀ e', s.phase ≠ .raised e' := by
  have hphase := hr.phase
  constructor
  · intro result hp
    rw [hp] at hphase
    exact hphase
  · intro e' hp
    rw [hp] at hphase
    exact hphase

theorem run_retrying {h : List Event} {s : State ι V R E} (hfails : Fails fn tvars e)
    (hr : Run (Lua.step fn) (Spares (fn.alone tvars .new).reads) ⟨tvars, .start⟩ h s) :
    Retrying fn tvars e s := by
  have hstart : Retrying fn tvars e ⟨tvars, .start⟩ := ⟨fun _ _ => rfl, trivial⟩
  refine Run.invariant (fun _ s => Retrying fn tvars e s) hstart ?_ hr
  intro _ _ _ _ _ hinv hok hs
  exact hinv.step hfails hok hs

/-- The error does not reach the caller. -/
theorem not_passesError (hfails : Fails fn tvars e) : ¬ PassesError fn tvars e := by
  rintro ⟨h, s, hr, hraised, -, -⟩
  have hspares : Run (Lua.step fn) (Spares (fn.alone tvars .new).reads) ⟨tvars, .start⟩ h s := by
    refine hr.strengthen ?_
    intro _ _ a _ _ _ hok _
    cases a with
    | resume => trivial
    | others _ => exact hok.elim
  exact (run_retrying hfails hspares).not_ended.2 e hraised

/-- **Errors are retried.**  If `fn` fails on the TVars, and others leave alone what it reads,
`atomically(fn)` neither returns nor passes the error on, however often it is resumed and whatever
others do in between, and it always comes to run `fn` once more. -/
theorem errors_are_retried (fn : Body ι V R E) (tvars : ι → TVar V) (e : E)
    (hfails : Fails fn tvars e) :
    ¬ PassesError fn tvars e ∧
    ∀ h s, Run (Lua.step fn) (Spares (fn.alone tvars .new).reads) ⟨tvars, .start⟩ h s →
      (∀ result, s.phase ≠ .returned result) ∧ (∀ e', s.phase ≠ .raised e') ∧
      ∃ h' s', Run (Lua.step fn) OnlyResumed s h' s' ∧ .attempt ∈ h' := by
  constructor
  · exact not_passesError hfails
  · intro h s hr
    have hinv := run_retrying hfails hr
    exact ⟨hinv.not_ended.1, hinv.not_ended.2, hinv.exists_attempt⟩

/-- The function that `bank_transfer` gives to `atomically`. -/
def bankTransfer {ι : Type} (fromAcc toAcc : ι) (amount : ℤ) : Body ι ℤ String String :=
  .readTvar fromAcc fun fromBal =>
    .readTvar toAcc fun toBal =>
      if fromBal < amount then .error "insufficient funds"
      else
        .writeTvar fromAcc (fromBal - amount) <|
          .writeTvar toAcc (toBal + amount) (.done s!"Transferred {amount}")

/-- A transfer of 50 from an account that holds 10, resumed once, comes to run again. -/
theorem errors_are_retried_bankTransfer :
    ∃ h s, Run (Lua.step (bankTransfer 0 1 50)) OnlyResumed ⟨fun _ : ℕ => ⟨10, 0⟩, .retry⟩ h s ∧
      .attempt ∈ h := by
  have hall := errors_are_retried (bankTransfer 0 1 50) (fun _ : ℕ => ⟨10, 0⟩)
    "insufficient funds" rfl
  have hok : Spares ((bankTransfer 0 1 50).alone (fun _ : ℕ => ⟨10, 0⟩) .new).reads
      (⟨fun _ => ⟨10, 0⟩, .start⟩ : State ℕ ℤ String String) .resume := trivial
  exact (hall.2 [.attempt] _ (Run.nil.snoc hok rfl)).2.2

/-- It does not pass its error to the caller. -/
theorem not_passesError_bankTransfer :
    ¬ PassesError (bankTransfer 0 1 50) (fun _ : ℕ => ⟨10, 0⟩) "insufficient funds" :=
  not_passesError rfl

end Stm.Lua
