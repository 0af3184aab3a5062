/-
# Transactions and their bodies (`python/stm/stm_model.py`)

The data of the Python STM and the code a transaction body can run on it.

* `TVar`, `Transaction` : the classes, with `Transaction.readTvar`,
  `Transaction.writeTvar` and `Transaction.retry`;
* `Body` : what `txn_func(txn)` does to its transaction, as a tree of operations
  whose continuations receive what the operation returned.  Python code between
  two operations is pure, so it is the continuation; a `try` around operations is
  `Body.tryExcept`;
* `retry`, `orElse` : the module function `retry()` and `_or_else`;
* `Body.exec` : the run of a body against a stream of stores, the `n`-th store being
  the one its `n`-th access to a TVar finds.  A body that runs alone sees one store
  throughout (`Body.runAlone`).

`V` is the type of TVar values, `ι` the type of the objects' `id`s and `R` the type of
the results of bodies.
-/
import Cocurrency.Lib.Dict

namespace Stm

/-! ## TVars and transactions -/

/-- A transactional variable: its value and its version counter. -/
@[ext] structure TVar (V : Type) where
  value : V
  version : ℕ
  deriving DecidableEq, Repr

/-- The exceptions that matter to `atomically` and `_or_else`: its own signal, the
`RuntimeError`s of `commit`, any other subclass of `Exception`, and what derives from
`BaseException` only (`KeyboardInterrupt`, `SystemExit`). -/
inductive Exn where
  | retryException
  | runtimeError (msg : String)
  | exception (name : String)
  | baseException (name : String)
  deriving DecidableEq, Repr

/-- Caught by `except (RetryException, Exception)`. -/
def Exn.isException : Exn → Bool
  | .baseException _ => false
  | _ => true

/-- An in-progress transaction. -/
structure Transaction (ι V : Type) where
  readSet : Dict ι (V × ℕ)
  writeSet : Dict ι V
  localCache : Dict ι V
  shouldRetry : Bool

namespace Transaction

variable {ι V : Type}

/-- `Transaction()`. -/
def init : Transaction ι V := ⟨Dict.empty, Dict.empty, Dict.empty, false⟩

variable [DecidableEq ι]

/-- `read_tvar`: a pending write of the transaction wins; otherwise value and version
are read under the TVar's lock and recorded, over any earlier record of the TVar. -/
def readTvar (txn : Transaction ι V) (tid : ι) (tvar : TVar V) : V × Transaction ι V :=
  match txn.writeSet.get tid with
  | some v => (v, txn)
  | none =>
      (tvar.value,
        { txn with
          readSet := txn.readSet.set tid (tvar.value, tvar.version)
          localCache := txn.localCache.set tid tvar.value })

/-- `write_tvar`. -/
def writeTvar (txn : Transaction ι V) (tid : ι) (value : V) : Transaction ι V :=
  { txn with
    writeSet := txn.writeSet.set tid value
    localCache := txn.localCache.set tid value }

omit [DecidableEq ι] in
/-- The method `txn.retry()`. -/
def retry (txn : Transaction ι V) : Transaction ι V := { txn with shouldRetry := true }

/-- The `except` block of `_or_else`: both sets are cleared and refilled, the flag is
cleared. -/
def restore (txn : Transaction ι V) (savedReads : Dict ι (V × ℕ)) (savedWrites : Dict ι V) :
    Transaction ι V :=
  { txn with
    readSet := savedReads
    writeSet := savedWrites
    shouldRetry := false }

/-- A TVar that has not been written is read. -/
theorem readTvar_of_not_written {txn : Transaction ι V} {tid : ι} (tvar : TVar V)
    (h : txn.writeSet.get tid = none) :
    txn.readTvar tid tvar =
      (tvar.value,
        { txn with
          readSet := txn.readSet.set tid (tvar.value, tvar.version)
          localCache := txn.localCache.set tid tvar.value }) := by
  rw [readTvar, h]

@[simp] theorem writeSet_readTvar (txn : Transaction ι V) (tid : ι) (tvar : TVar V) :
    (txn.readTvar tid tvar).2.writeSet = txn.writeSet := by
  rw [readTvar]
  split <;> rfl

@[simp] theorem shouldRetry_readTvar (txn : Transaction ι V) (tid : ι) (tvar : TVar V) :
    (txn.readTvar tid tvar).2.shouldRetry = txn.shouldRetry := by
  rw [readTvar]
  split <;> rfl

end Transaction

/-! ## Bodies -/

/-- What a transaction body does, operation by operation. -/
inductive Body (ι V R : Type) where
  /-- `return r` -/
  | done (r : R)
  /-- `raise e` -/
  | raise (e : Exn)
  /-- `txn.read_tvar(tvar)` -/
  | readTvar (tid : ι) (k : V → Body ι V R)
  /-- `txn.write_tvar(tvar, value)` -/
  | writeTvar (tid : ι) (value : V) (k : Body ι V R)
  /-- the method `txn.retry()`, which raises nothing -/
  | retryFlag (k : Body ι V R)
  /-- the property `txn.should_retry` -/
  | shouldRetry (k : Bool → Body ι V R)
  /-- `dict(txn.read_set)`, `dict(txn.write_set)` -/
  | copySets (k : Dict ι (V × ℕ) → Dict ι V → Body ι V R)
  /-- the restoration in the `except` block of `_or_else` -/
  | restoreSets (reads : Dict ι (V × ℕ)) (writes : Dict ι V) (k : Body ι V R)

namespace Body

variable {ι V R : Type}

/-- `try: b  except ... as e: handler(e)`. -/
def tryExcept : Body ι V R → (Exn → Body ι V R) → Body ι V R
  | done r, _ => done r
  | raise e, handler => handler e
  | readTvar tid k, handler => readTvar tid fun v => (k v).tryExcept handler
  | writeTvar tid value k, handler => writeTvar tid value (k.tryExcept handler)
  | retryFlag k, handler => retryFlag (k.tryExcept handler)
  | shouldRetry k, handler => shouldRetry fun b => (k b).tryExcept handler
  | copySets k, handler => copySets fun rs ws => (k rs ws).tryExcept handler
  | restoreSets reads writes k, handler => restoreSets reads writes (k.tryExcept handler)

/-- The body uses `read_tvar`, `write_tvar`, the two retry signals and exceptions, but not
`_or_else`: it never copies or replaces the transaction's sets. -/
def Plain : Body ι V R → Prop
  | done _ => True
  | raise _ => True
  | readTvar _ k => ∀ v, (k v).Plain
  | writeTvar _ _ k => k.Plain
  | retryFlag k => k.Plain
  | shouldRetry k => ∀ b, (k b).Plain
  | copySets _ => False
  | restoreSets _ _ _ => False

/-- On every path the body reads no TVar twice, nor one of `seen`. -/
def ReadOnce : Body ι V R → (ι → Prop) → Prop
  | done _, _ => True
  | raise _, _ => True
  | readTvar tid k, seen => ¬ seen tid ∧ ∀ v, (k v).ReadOnce fun t => t = tid ∨ seen t
  | writeTvar _ _ k, seen => k.ReadOnce seen
  | retryFlag k, seen => k.ReadOnce seen
  | shouldRetry k, seen => ∀ b, (k b).ReadOnce seen
  | copySets _, _ => False
  | restoreSets _ _ _, _ => False

end Body

/-- The module function `retry()`, called inside the transaction: set the flag, then
raise. -/
def retry {ι V R : Type} : Body ι V R := .retryFlag (.raise .retryException)

/-- `_or_else(txn, first, second)`. -/
def orElse {ι V R : Type} (first second : Body ι V R) : Body ι V R :=
  -- `original_retry` is saved and never used
  .shouldRetry fun _originalRetry =>
    .copySets fun savedReads savedWrites =>
      first.tryExcept fun e =>
        if e.isException then .restoreSets savedReads savedWrites second else .raise e

/-! ## Running a body -/

/-- How a body ended, the transaction it left and the accesses to TVars it made. -/
structure Result (ι V R : Type) where
  outcome : Except Exn R
  txn : Transaction ι V
  reads : List (ι × TVar V)

/-- Accesses made before. -/
def Result.after {ι V R : Type} (rs : List (ι × TVar V)) (res : Result ι V R) : Result ι V R :=
  { res with reads := rs ++ res.reads }

@[simp] theorem Result.after_nil {ι V R : Type} (res : Result ι V R) : res.after [] = res := rfl

@[simp] theorem Result.after_after {ι V R : Type} (rs rs' : List (ι × TVar V))
    (res : Result ι V R) : (res.after rs').after rs = res.after (rs ++ rs') := by
  simp [Result.after, List.append_assoc]

namespace Body

variable {ι V R : Type} [DecidableEq ι]

/-- Run a body on the transaction `txn`; its next access to a TVar is the `n`-th of the
stream and finds the store `env n`. -/
def exec (env : ℕ → ι → TVar V) : Body ι V R → ℕ → Transaction ι V → Result ι V R
  | done r, _, txn => ⟨.ok r, txn, []⟩
  | raise e, _, txn => ⟨.error e, txn, []⟩
  | readTvar tid k, n, txn =>
      match txn.writeSet.get tid with
      | some v => (k v).exec env n txn
      | none =>
          ((k (env n tid).value).exec env (n + 1) (txn.readTvar tid (env n tid)).2).after
            [(tid, env n tid)]
  | writeTvar tid value k, n, txn => k.exec env n (txn.writeTvar tid value)
  | retryFlag k, n, txn => k.exec env n txn.retry
  | shouldRetry k, n, txn => (k txn.shouldRetry).exec env n txn
  | copySets k, n, txn => (k txn.readSet txn.writeSet).exec env n txn
  | restoreSets reads writes k, n, txn => k.exec env n (txn.restore reads writes)

/-- The run of a body on one store, from a new transaction. -/
def runAlone (b : Body ι V R) (store : ι → TVar V) : Result ι V R :=
  b.exec (fun _ => store) 0 .init

/-- A body that reads what it has written. -/
theorem exec_readTvar_of_written (env : ℕ → ι → TVar V) {tid : ι} (k : V → Body ι V R) (n : ℕ)
    {txn : Transaction ι V} {v : V} (h : txn.writeSet.get tid = some v) :
    (readTvar tid k).exec env n txn = (k v).exec env n txn := by
  rw [exec, h]

/-- A body that reads a TVar. -/
theorem exec_readTvar_of_not_written (env : ℕ → ι → TVar V) {tid : ι} (k : V → Body ι V R)
    (n : ℕ) {txn : Transaction ι V} (h : txn.writeSet.get tid = none) :
    (readTvar tid k).exec env n txn =
      ((k (env n tid).value).exec env (n + 1) (txn.readTvar tid (env n tid)).2).after
        [(tid, env n tid)] := by
  rw [exec, h]

/-- A `try` runs its block, and the handler if the block raised. -/
theorem exec_tryExcept (env : ℕ → ι → TVar V) (b : Body ι V R) (handler : Exn → Body ι V R)
    (n : ℕ) (txn : Transaction ι V) :
    (b.tryExcept handler).exec env n txn =
      match (b.exec env n txn).outcome with
      | .ok _ => b.exec env n txn
      | .error e =>
          ((handler e).exec env (n + (b.exec env n txn).reads.length) (b.exec env n txn).txn).after
            (b.exec env n txn).reads := by
  induction b generalizing n txn with
  | done r => rfl
  | raise e => simp [tryExcept, exec]
  | readTvar tid k ih =>
      cases hw : txn.writeSet.get tid with
      | some v =>
          rw [tryExcept, exec_readTvar_of_written env _ n hw, exec_readTvar_of_written env _ n hw]
          exact ih v n txn
      | none =>
          rw [tryExcept, exec_readTvar_of_not_written env _ n hw,
            exec_readTvar_of_not_written env _ n hw, ih]
          simp only [Result.after]
          -- the handler's accesses are counted from after this one and those of the block
          split <;> simp [Nat.add_assoc, Nat.add_comm 1]
  | writeTvar tid value k ih => exact ih n _
  | retryFlag k ih => exact ih n _
  | shouldRetry k ih => exact ih _ n txn
  | copySets k ih => exact ih _ _ n txn
  | restoreSets reads writes k ih => exact ih n _

/-- **Reads determine the run.**  If every access found what `store` holds, the run is
the run on `store`. -/
theorem exec_eq_of_reads (env : ℕ → ι → TVar V) (store : ι → TVar V) (b : Body ι V R)
    (n m : ℕ) (txn : Transaction ι V)
    (h : ∀ a ∈ (b.exec env n txn).reads, store a.1 = a.2) :
    b.exec (fun _ => store) m txn = b.exec env n txn := by
  induction b generalizing n m txn with
  | done r => rfl
  | raise e => rfl
  | readTvar tid k ih =>
      cases hw : txn.writeSet.get tid with
      | some v =>
          rw [exec_readTvar_of_written env _ n hw] at h ⊢
          rw [exec_readTvar_of_written _ _ m hw]
          exact ih v n m txn h
      | none =>
          rw [exec_readTvar_of_not_written env _ n hw] at h ⊢
          rw [exec_readTvar_of_not_written _ _ m hw]
          -- both runs find the same value, so they go on with the same continuation
          have hhead : store tid = env n tid := h (tid, env n tid) (by simp [Result.after])
          rw [hhead, ih _ (n + 1) (m + 1) _ fun a ha => h a (by simp [Result.after, ha])]
  | writeTvar tid value k ih => exact ih n m _ h
  | retryFlag k ih => exact ih n m _ h
  | shouldRetry k ih => exact ih _ n m txn h
  | copySets k ih => exact ih _ _ n m txn h
  | restoreSets reads writes k ih => exact ih n m _ h

/-- The run of `_or_else`: the run of `first`, and on an `Exception` the run of `second`
on the restored transaction. -/
theorem exec_orElse (env : ℕ → ι → TVar V) (first second : Body ι V R) (n : ℕ)
    (txn : Transaction ι V) :
    (orElse first second).exec env n txn =
      match (first.exec env n txn).outcome with
      | .ok _ => first.exec env n txn
      | .error e =>
          if e.isException then
            (second.exec env (n + (first.exec env n txn).reads.length)
              ((first.exec env n txn).txn.restore txn.readSet txn.writeSet)).after
                (first.exec env n txn).reads
          else first.exec env n txn := by
  rw [orElse, exec, exec, exec_tryExcept]
  cases hout : (first.exec env n txn).outcome with
  | ok r => rfl
  | error e =>
      by_cases he : e.isException
      · simp only [he, if_true]
        rfl
      · simp only [he]
        simp only [Bool.false_eq_true, if_false, exec, Result.after, List.append_nil]
        rw [← hout]

end Body

end Stm
