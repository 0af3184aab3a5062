/-
# Accounts with locks (`python/shared_memory_lock/bank_account.py`)

The bodies of `deposit`, `withdraw`, `get_balance` and `transfer` as sequences of single reads and
writes of balances, each under the locks of the `with` statements around it, and threads that run
programs of such calls.  One step of a thread is a call, the acquisition or the release of one
lock, one read, one write, or a return.  A `with` statement releases its lock however its body
ends.
-/
import Mathlib.Data.Int.Notation
import Mathlib.Data.Nat.Notation
import Mathlib.Data.String.Basic
import Mathlib.Logic.Function.Basic

namespace Lock

/-! ## Calls -/

/-- How a call ends. -/
inductive Result where
  | returned (value : Option ℤ)
  /-- `ValueError` -/
  | raised (message : String)
  deriving DecidableEq, Repr

/-- What is inside the `with` statements of a call, read by read and write by write. -/
inductive Body (ι : Type*) where
  | read (account : ι) (next : ℤ → Body ι)
  | write (account : ι) (balance : ℤ) (next : Body ι)
  | ends (result : Result)

/-- A call: the accounts of its `with` statements, from the outermost one, and its body. -/
structure Call (ι : Type*) where
  locks : List ι
  body : Body ι

section Functions

variable {ι : Type*}

/-- `deposit`. -/
def deposit (self : ι) (amount : ℤ) : Call ι where
  locks := [self]
  body :=
    if amount ≤ 0 then .ends (.raised "Deposit amount must be positive")
    else .read self fun balance => .write self (balance + amount) (.ends (.returned none))

/-- `withdraw`. -/
def withdraw (self : ι) (amount : ℤ) : Call ι where
  locks := [self]
  body :=
    if amount ≤ 0 then .ends (.raised "Withdrawal amount must be positive")
    else .read self fun balance =>
      if balance < amount then
        -- the message reads the balance once more, and so does `-=`
        .read self fun balance =>
          .ends (.raised s!"Insufficient funds: balance={balance}, withdrawal={amount}")
      else .read self fun balance => .write self (balance - amount) (.ends (.returned none))

/-- `get_balance`. -/
def getBalance (self : ι) : Call ι where
  locks := [self]
  body := .read self fun balance => .ends (.returned (some balance))

/-- `sorted([from_account, to_account], key=lambda a: a.account_id)`: the sort is stable. -/
def inOrder (accountId : ι → String) (fromAccount toAccount : ι) : List ι :=
  if accountId fromAccount ≤ accountId toAccount then [fromAccount, toAccount]
  else [toAccount, fromAccount]

/-- `transfer`. -/
def transfer (accountId : ι → String) (fromAccount toAccount : ι) (amount : ℤ) : Call ι where
  locks := inOrder accountId fromAccount toAccount
  body :=
    if amount ≤ 0 then .ends (.raised "Transfer amount must be positive")
    else .read fromAccount fun balance =>
      if balance < amount then
        .read fromAccount fun balance =>
          let id := accountId fromAccount
          .ends (.raised s!"Insufficient funds in {id}: balance={balance}, transfer={amount}")
      else
        .read fromAccount fun balance => .write fromAccount (balance - amount)
          (.read toAccount fun balance => .write toAccount (balance + amount)
            (.ends (.returned none)))

end Functions

/-- A call that a program makes; a transfer is between different accounts. -/
inductive Op (ι : Type*) where
  | deposit (account : ι) (amount : ℤ)
  | withdraw (account : ι) (amount : ℤ)
  | getBalance (account : ι)
  | transfer (fromAccount toAccount : ι) (amount : ℤ) (ne : fromAccount ≠ toAccount)

/-- The call that an operation makes. -/
def Op.call {ι : Type*} (accountId : ι → String) : Op ι → Call ι
  | deposit account amount => Lock.deposit account amount
  | withdraw account amount => Lock.withdraw account amount
  | getBalance account => Lock.getBalance account
  | transfer fromAccount toAccount amount _ => Lock.transfer accountId fromAccount toAccount amount

/-- A finite program: the result of a call decides how it goes on. -/
inductive Program (ι : Type*) where
  | finished
  | call (op : Op ι) (next : Result → Program ι)

/-! ## Threads -/

/-- Where a thread is: between two calls, or in one, with the locks it holds, from the innermost
one, those it has still to acquire, and the rest of the body. -/
inductive Phase (ι : Type*) where
  | idle
  | running (held toLock : List ι) (body : Body ι)

/-- A thread, with its program from the present call on. -/
structure Thread (ι : Type*) where
  program : Program ι
  phase : Phase ι

/-- The accounts `ι`, each with the holder of its lock, and the threads `τ`. -/
structure Bank (τ ι : Type*) where
  balance : ι → ℤ
  lock : ι → Option τ
  thread : τ → Thread ι

/-- What a step shows. -/
inductive Event (τ ι : Type*) where
  | called (t : τ) (op : Op ι)
  | acquired (t : τ) (account : ι)
  | hasRead (t : τ) (account : ι) (balance : ℤ)
  | wrote (t : τ) (account : ι) (balance : ℤ)
  | released (t : τ) (account : ι)
  | ended (t : τ) (result : Result)

namespace Bank

variable {τ ι : Type*} [DecidableEq τ] [DecidableEq ι]

/-- No lock is held, and no thread has started. -/
def start (initial : ι → ℤ) (program : τ → Program ι) : Bank τ ι where
  balance := initial
  lock _ := none
  thread t := ⟨program t, .idle⟩

/-- Thread `t` goes on to `th`. -/
def setThread (s : Bank τ ι) (t : τ) (th : Thread ι) : Bank τ ι :=
  { s with thread := Function.update s.thread t th }

/-- Thread `t` goes on with its call. -/
def goOn (s : Bank τ ι) (t : τ) (held toLock : List ι) (body : Body ι) : Bank τ ι :=
  s.setThread t ⟨(s.thread t).program, .running held toLock body⟩

/-- The next step of thread `t`, unless it has finished or waits for a lock. -/
def step (accountId : ι → String) (s : Bank τ ι) (t : τ) : Option (Event τ ι × Bank τ ι) :=
  match (s.thread t).phase with
  | .idle =>
      match (s.thread t).program with
      | .finished => none
      | .call op _ =>
          some (.called t op, s.goOn t [] (op.call accountId).locks (op.call accountId).body)
  | .running held (account :: toLock) body =>
      match s.lock account with
      | none =>
          some (.acquired t account,
            { s with lock := Function.update s.lock account (some t) }.goOn t (account :: held)
              toLock body)
      | some _ => none
  | .running held [] (.read account next) =>
      some (.hasRead t account (s.balance account),
        s.goOn t held [] (next (s.balance account)))
  | .running held [] (.write account balance next) =>
      some (.wrote t account balance,
        { s with balance := Function.update s.balance account balance }.goOn t held [] next)
  | .running (account :: held) [] (.ends result) =>
      some (.released t account,
        { s with lock := Function.update s.lock account none }.goOn t held [] (.ends result))
  | .running [] [] (.ends result) =>
      match (s.thread t).program with
      | .finished => none
      | .call _ next => some (.ended t result, s.setThread t ⟨next result, .idle⟩)

end Bank

end Lock
