/-
# Nested `synchronized` blocks (`scala/shared_memory/BankAccount.scala`)

The methods of an `Account` are `synchronized`; `transfer` enters the monitors of both accounts, in
the order of their ids, and calls the methods of the accounts with the monitors held.  Of the
amounts, which are doubles, nothing is assumed where nothing is said.

* `transfers_serializable` : the calls do what they do one at a time in some order;
* `deadlock_free_iff` : nobody waits for ever, whatever is called, if and only if the accounts have
  different ids, as those of one `Ledger` have.
-/
import Cocurrency.Lib.SynchronizedHalts
import Cocurrency.Lib.Utf16
import Mathlib.Algebra.Order.BigOperators.Group.Finset
import Mathlib.Algebra.Order.Group.Defs
import Mathlib.Algebra.BigOperators.Group.List.Basic
import Mathlib.Data.Fintype.BigOperators
import Mathlib.Data.String.Basic

namespace Lock

namespace ScalaBank

open Synchronized (Block)

/-- What has a monitor. -/
inductive Obj (ι : Type*) where
  | ledger
  | account (a : ι)
  deriving DecidableEq

/-- How a call ends. -/
inductive Result (α : Type*) where
  | unit
  | amount (balance : α)
  | snapshot (id : String) (balance : α)
  | statement (lines : List (String × α)) (total : α)
  /-- An `IllegalArgumentException` with this message. -/
  | raised (message : String)
  deriving DecidableEq

/-- The calls of the methods of one or two accounts. -/
inductive Op (ι α : Type*) where
  | balance (a : ι)
  | deposit (a : ι) (amount : α)
  | withdraw (a : ι) (amount : α)
  | snapshot (a : ι)
  | transfer (source target : ι) (amount : α)
  deriving DecidableEq

/-- A call of a method of an account, a `transfer`, or a call of `printStatement`. -/
inductive Call (ι α : Type*) where
  | op (op : Op ι α)
  | printStatement
  deriving DecidableEq

/-! ## The methods -/

section Methods

variable {ι α : Type*}

/-- The program of a call. -/
abbrev Prog (ι α : Type*) := Block (Obj ι) ι α (Result α)

/-- A method that is called in a call; an exception ends the outer call, too. -/
def nested (a : ι) (method : (α → Prog ι α) → Prog ι α) (next : α → Prog ι α) : Prog ι α :=
  .enter (.account a) (method fun value => .leave (next value))

/-- `balance`, in its block. -/
def readBalance (a : ι) (next : α → Prog ι α) : Prog ι α := .access a id next

variable [Zero α] [Add α] [Sub α] [LE α] [LT α] [DecidableLE α] [DecidableLT α] [ToString α]

omit [Sub α] [LT α] [DecidableLT α] in
/-- `deposit`, in its block; the line that is printed calls `balance`. -/
def makeDeposit (a : ι) (amount : α) (next : α → Prog ι α) : Prog ι α :=
  if amount ≤ 0 then .done (.raised s!"deposit amount must be positive (got {amount})")
  else
    .access a id fun balance => .access a (fun _ => balance + amount) fun _ =>
      nested a (readBalance a) fun _ => .access a id next

variable (accountId : ι → String)

omit [Add α] in
/-- `withdraw`, in its block. -/
def makeWithdrawal (a : ι) (amount : α) (next : α → Prog ι α) : Prog ι α :=
  if amount ≤ 0 then .done (.raised s!"withdraw amount must be positive (got {amount})")
  else
    .access a id fun balance =>
      if amount > balance then
        .access a id fun balance =>
          let id := accountId a
          .done (.raised s!"insufficient funds in account {id}: need {amount} but have {balance}")
      else
        .access a id fun balance => .access a (fun _ => balance - amount) fun _ =>
          nested a (readBalance a) fun _ => .access a id next

/-- `transfer`, in its blocks. -/
def makeTransfer (source target : ι) (amount : α) : Prog ι α :=
  if amount ≤ 0 then .done (.raised "transfer amount must be positive")
  else
    nested source (readBalance source) fun balance =>
      if balance < amount then
        nested source (readBalance source) fun balance =>
          let fromId := accountId source
          let toId := accountId target
          .done (.raised
            (s!"insufficient funds: account {fromId} has {balance}, " ++
              s!"needs {amount} for transfer to {toId}"))
      else
        nested source (makeWithdrawal accountId source amount) fun _ =>
          nested target (makeDeposit target amount) fun _ => .done .unit

omit [Zero α] [Add α] [Sub α] [LE α] [LT α] [DecidableLE α] [DecidableLT α] [ToString α] in
/-- The order in which `transfer` enters the two monitors; `<` of two strings is that of
`compareTo`. -/
def inOrder (source target : ι) : ι × ι :=
  if Utf16.compareTo (accountId source) (accountId target) < 0 then (source, target)
  else (target, source)

/-- `Ledger.transfer` takes the locks in the order of the ids. -/
def transfer (source target : ι) (amount : α) : Prog ι α :=
  let (first, second) := inOrder accountId source target
  .enter (.account first) <| .enter (.account second) <| makeTransfer accountId source target amount

/-- Each method in its `synchronized` blocks. -/
def Op.block : Op ι α → Prog ι α
  | .balance a => .enter (.account a) (readBalance a fun balance => .done (.amount balance))
  | .deposit a amount =>
      .enter (.account a) (makeDeposit a amount fun balance => .done (.amount balance))
  | .withdraw a amount =>
      .enter (.account a) (makeWithdrawal accountId a amount fun balance => .done (.amount balance))
  | .snapshot a =>
      .enter (.account a) (.access a id fun balance => .done (.snapshot (accountId a) balance))
  | .transfer source target amount => ScalaBank.transfer accountId source target amount

omit [Sub α] [LE α] [LT α] [DecidableLE α] [DecidableLT α] [ToString α] in
/-- The loop of `printStatement` over the accounts that are left. -/
def printLines : List ι → List (String × α) → α → Prog ι α
  | [], lines, total => .done (.statement lines total)
  | a :: accounts, lines, total =>
      .enter (.account a) <| .access a id fun balance => .leave <|
        printLines accounts (lines ++ [(accountId a, balance)]) (total + balance)

/-- `accounts` is what the ledger has, in the order in which it was opened. -/
def Call.block (accounts : List ι) : Call ι α → Prog ι α
  | .op o => o.block accountId
  | .printStatement => .enter .ledger (printLines accountId accounts [] 0)

end Methods

/-! ## The calls at once -/

section Reads

variable {ι α : Type*} [DecidableEq ι]

/-- A method is called in a call, at once. -/
theorem run_nested (a : ι) (method : (α → Prog ι α) → Prog ι α) (next : α → Prog ι α) (m : ι → α) :
    (nested a method next).run m = (method fun value => .leave (next value)).run m := rfl

theorem run_access_id (a : ι) (next : α → Prog ι α) (m : ι → α) :
    (Block.access a id next : Prog ι α).run m = (next (m a)).run m := by
  rw [Block.run, id_eq, Function.update_eq_self]

/-- `balance`, called from inside a method. -/
theorem run_readBalance (a : ι) (next : α → Prog ι α) (m : ι → α) :
    (readBalance a next).run m = (next (m a)).run m := run_access_id a next m

end Reads

section AtOnce

variable {ι α : Type*} [DecidableEq ι] [Zero α] [Add α] [Sub α] [LE α] [LT α] [DecidableLE α]
  [DecidableLT α] [ToString α] (accountId : ι → String)

/-- A call on a map from accounts to balances: how it ends, and the map afterwards. -/
def Op.onBalances : Op ι α → (ι → α) → Result α × (ι → α)
  | .balance a, m => (.amount (m a), m)
  | .snapshot a, m => (.snapshot (accountId a) (m a), m)
  | .deposit a amount, m =>
      if amount ≤ 0 then (.raised s!"deposit amount must be positive (got {amount})", m)
      else (.amount (m a + amount), Function.update m a (m a + amount))
  | .withdraw a amount, m =>
      if amount ≤ 0 then (.raised s!"withdraw amount must be positive (got {amount})", m)
      else if m a < amount then
        let id := accountId a
        let balance := m a
        (.raised s!"insufficient funds in account {id}: need {amount} but have {balance}", m)
      else (.amount (m a - amount), Function.update m a (m a - amount))
  | .transfer source target amount, m =>
      if amount ≤ 0 then (.raised "transfer amount must be positive", m)
      else if m source < amount then
        let fromId := accountId source
        let toId := accountId target
        let balance := m source
        (.raised (s!"insufficient funds: account {fromId} has {balance}, " ++
            s!"needs {amount} for transfer to {toId}"), m)
      else
        let taken := Function.update m source (m source - amount)
        (.unit, Function.update taken target (taken target + amount))

omit [Sub α] [LT α] [DecidableLT α] in
/-- A deposit that is made. -/
theorem run_makeDeposit {amount : α} (hpos : ¬ amount ≤ 0) (a : ι) (next : α → Prog ι α)
    (m : ι → α) : (makeDeposit a amount next).run m =
      (next (m a + amount)).run (Function.update m a (m a + amount)) := by
  rw [makeDeposit, if_neg hpos, run_access_id, Block.run, run_nested, run_readBalance, Block.run,
    run_access_id, Function.update_self]

omit [Add α] in
/-- A withdrawal that is made. -/
theorem run_makeWithdrawal {amount : α} (hpos : ¬ amount ≤ 0) (a : ι) {m : ι → α}
    (henough : ¬ m a < amount) (next : α → Prog ι α) :
    (makeWithdrawal accountId a amount next).run m =
      (next (m a - amount)).run (Function.update m a (m a - amount)) := by
  rw [makeWithdrawal, if_neg hpos, run_access_id, if_neg henough, run_access_id, Block.run,
    run_nested, run_readBalance, Block.run, run_access_id, Function.update_self]

/-- **A call that is made at once** is the call on the map. -/
theorem run_block (op : Op ι α) (m : ι → α) :
    (op.block accountId).run m = op.onBalances accountId m := by
  cases op with
  | balance a => rw [Op.block, Block.run, run_readBalance, Block.run, Op.onBalances]
  | snapshot a => rw [Op.block, Block.run, run_access_id, Block.run, Op.onBalances]
  | deposit a amount =>
      rw [Op.block, Op.onBalances, Block.run]
      split_ifs with hpos
      · rw [makeDeposit, if_pos hpos, Block.run]
      · rw [run_makeDeposit hpos, Block.run]
  | withdraw a amount =>
      rw [Op.block, Op.onBalances, Block.run]
      split_ifs with hpos hlt
      · rw [makeWithdrawal, if_pos hpos, Block.run]
      · rw [makeWithdrawal, if_neg hpos, run_access_id, if_pos hlt, run_access_id, Block.run]
      · rw [run_makeWithdrawal accountId hpos a hlt, Block.run]
  | transfer source target amount =>
      rw [Op.block, Op.onBalances, transfer, Block.run, Block.run, makeTransfer]
      split_ifs with hpos hlt
      · rw [Block.run]
      · rw [run_nested, run_readBalance, Block.run, if_pos hlt, run_nested, run_readBalance,
          Block.run, Block.run]
      · rw [run_nested, run_readBalance, Block.run, if_neg hlt, run_nested,
          run_makeWithdrawal accountId hpos source hlt, Block.run, run_nested,
          run_makeDeposit hpos, Block.run, Block.run]

end AtOnce

/-! ## The monitors of a call -/

section Inside

variable {ι α : Type*} {held : List (Obj ι)} {a : ι} {next : α → Prog ι α}

/-- An access to a locked account. -/
theorem inside_access {change : α → α} (ha : .account a ∈ held)
    (hnext : ∀ v, (next v).Inside .account held) :
    (Block.access a change next : Prog ι α).Inside .account held := by
  rw [Block.Inside]
  exact ⟨ha, hnext⟩

/-- A method of an account that is locked already. -/
theorem inside_nested {method : (α → Prog ι α) → Prog ι α} (ha : .account a ∈ held)
    (hmethod : ∀ (held : List (Obj ι)) (next : α → Prog ι α), .account a ∈ held →
      (∀ v, (next v).Inside .account held) → (method next).Inside .account held)
    (hnext : ∀ v, (next v).Inside .account held) :
    (nested a method next).Inside .account held :=
  ⟨ha, hmethod _ _ List.mem_cons_self fun v => ⟨ha, hnext v⟩⟩

/-- `balance` stays inside. -/
theorem inside_readBalance (ha : .account a ∈ held) (hnext : ∀ v, (next v).Inside .account held) :
    (readBalance a next).Inside .account held := inside_access ha hnext

variable [Zero α] [Add α] [Sub α] [LE α] [LT α] [DecidableLE α] [DecidableLT α] [ToString α]
  {accountId : ι → String}

omit [Sub α] [LT α] [DecidableLT α] in
/-- `deposit` stays inside. -/
theorem inside_makeDeposit {amount : α} (ha : .account a ∈ held)
    (hnext : ∀ v, (next v).Inside .account held) :
    (makeDeposit a amount next).Inside .account held := by
  rw [makeDeposit]
  split_ifs with hpos
  · trivial
  · refine inside_access ha fun _ => inside_access ha fun _ => ?_
    exact inside_nested ha (fun _ _ => inside_readBalance) fun _ => inside_access ha hnext

omit [Add α] in
/-- `withdraw` stays inside. -/
theorem inside_makeWithdrawal {amount : α} (ha : .account a ∈ held)
    (hnext : ∀ v, (next v).Inside .account held) :
    (makeWithdrawal accountId a amount next).Inside .account held := by
  rw [makeWithdrawal]
  split_ifs with hpos
  · trivial
  · refine inside_access ha fun _ => ?_
    split_ifs with hlt
    · exact inside_access ha fun _ => trivial
    · refine inside_access ha fun _ => inside_access ha fun _ => ?_
      exact inside_nested ha (fun _ _ => inside_readBalance) fun _ => inside_access ha hnext

/-- Both halves of a transfer stay inside. -/
theorem inside_makeTransfer {source target : ι} (amount : α) (hsource : .account source ∈ held)
    (htarget : .account target ∈ held) :
    (makeTransfer accountId source target amount).Inside .account held := by
  rw [makeTransfer]
  split_ifs with hpos
  · trivial
  · refine inside_nested hsource (fun _ _ => inside_readBalance) fun balance => ?_
    split_ifs with hlt
    · exact inside_nested hsource (fun _ _ => inside_readBalance) fun _ => trivial
    · refine inside_nested hsource (fun _ _ => inside_makeWithdrawal) fun _ => ?_
      exact inside_nested htarget (fun _ _ => inside_makeDeposit) fun _ => trivial

/-- A method enters the monitor of its account, `transfer` those of its two. -/
theorem block_cases (accountId : ι → String) (op : Op ι α) :
    (∃ a rest, op.block accountId = .enter (.account a) rest ∧
      rest.Inside .account [.account a]) ∨
    ∃ source target rest, op.block accountId =
        .enter (.account (inOrder accountId source target).1)
          (.enter (.account (inOrder accountId source target).2) rest) ∧
      rest.Inside .account [.account (inOrder accountId source target).2,
        .account (inOrder accountId source target).1] := by
  cases op with
  | balance a =>
      exact Or.inl ⟨a, _, rfl, inside_readBalance List.mem_cons_self fun _ => trivial⟩
  | deposit a amount =>
      exact Or.inl ⟨a, _, rfl, inside_makeDeposit List.mem_cons_self fun _ => trivial⟩
  | withdraw a amount =>
      exact Or.inl ⟨a, _, rfl, inside_makeWithdrawal List.mem_cons_self fun _ => trivial⟩
  | snapshot a => exact Or.inl ⟨a, _, rfl, inside_access List.mem_cons_self fun _ => trivial⟩
  | transfer source target amount =>
      refine Or.inr ⟨source, target, _, rfl, inside_makeTransfer amount ?_ ?_⟩ <;>
        rw [inOrder] <;> split_ifs <;> simp

/-- Every call holds its locks until it returns. -/
theorem twoPhase_block (op : Op ι α) : (op.block accountId).TwoPhase .account [] := by
  rcases block_cases accountId op with
    ⟨a, rest, hblock, hinside⟩ | ⟨source, target, rest, hblock, hinside⟩
  · rw [hblock]
    exact hinside.twoPhase
  · rw [hblock]
    exact hinside.twoPhase

end Inside

/-! ## One call at a time -/

section Threads

variable {τ ι α : Type*} [DecidableEq τ]

/-- The calls of one thread. -/
def callsOf (t : τ) (calls : List (τ × Op ι α)) : List (Op ι α) :=
  calls.filterMap fun c => if c.1 = t then some c.2 else none

/-- One call more of the thread. -/
theorem callsOf_snoc_self (calls : List (τ × Op ι α)) (t : τ) (op : Op ι α) :
    callsOf t (calls ++ [(t, op)]) = callsOf t calls ++ [op] := by
  simp [callsOf]

/-- One call more of another thread. -/
theorem callsOf_snoc_of_ne {t u : τ} (hu : u ≠ t) (calls : List (τ × Op ι α)) (op : Op ι α) :
    callsOf u (calls ++ [(t, op)]) = callsOf u calls := by
  simp [callsOf, Ne.symm hu]

end Threads

section Serially

variable {τ ι α : Type*} [DecidableEq τ] [DecidableEq ι] [Zero α] [Add α] [Sub α] [LE α] [LT α]
  [DecidableLE α] [DecidableLT α] [ToString α]

/-- The accounts, their monitors and the threads. -/
abbrev Bank (τ ι α : Type*) := Synchronized.State τ (Obj ι) ι α (Result α)

omit [Zero α] [Add α] [Sub α] [LE α] [LT α] [DecidableLE α] [DecidableLT α] [ToString α] in
/-- The program. -/
def step : Bank τ ι α → τ → Option (Synchronized.Event τ (Obj ι) ι (Result α) × Bank τ ι α) :=
  Synchronized.step

/-- All threads are before their first call. -/
def start (accountId : ι → String) (m : ι → α) (program : τ → List (Op ι α)) : Bank τ ι α :=
  Synchronized.start m fun t => (program t).map (Op.block accountId)

omit [DecidableEq τ] [DecidableEq ι] [Zero α] [Add α] [Sub α] [LE α] [LT α] [DecidableLE α]
  [DecidableLT α] [ToString α] in
/-- The results of the calls, as they return. -/
def returned (h : List (Synchronized.Event τ (Obj ι) ι (Result α))) : List (τ × Result α) :=
  h.filterMap Synchronized.Event.result

variable (accountId : ι → String)

/-- Calls on the plain map, one after the other: their results, and the map in the end. -/
def serially (m : ι → α) : List (τ × Op ι α) → List (τ × Result α) × (ι → α)
  | [] => ([], m)
  | (t, op) :: calls =>
      let now := op.onBalances accountId m
      let later := serially now.2 calls
      ((t, now.1) :: later.1, later.2)

variable {accountId}

omit [DecidableEq τ] in
/-- One call more. -/
theorem serially_snoc (m : ι → α) (calls : List (τ × Op ι α)) (t : τ) (op : Op ι α) :
    serially accountId m (calls ++ [(t, op)]) =
      ((serially accountId m calls).1 ++
          [(t, (op.onBalances accountId (serially accountId m calls).2).1)],
        (op.onBalances accountId (serially accountId m calls).2).2) := by
  induction calls generalizing m with
  | nil => rfl
  | cons c calls ih => rw [List.cons_append, serially, ih, serially, List.cons_append]

/-- The serial system makes the calls of the program on the plain map. -/
theorem run_serially {m : ι → α} {program : τ → List (Op ι α)} {h : List (τ × Result α)}
    {a : Synchronized.Serial τ (Obj ι) ι α (Result α)}
    (hr : Run Synchronized.Serial.step anyStep
      ⟨m, fun t => (program t).map (Op.block accountId)⟩ h a) :
    ∃ calls : List (τ × Op ι α), h = (serially accountId m calls).1 ∧
      a.value = (serially accountId m calls).2 ∧
      ∀ t, ∃ rest, program t = callsOf t calls ++ rest ∧
        a.todo t = rest.map (Op.block accountId) := by
  refine hr.invariant (fun h a => ∃ calls : List (τ × Op ι α),
    h = (serially accountId m calls).1 ∧ a.value = (serially accountId m calls).2 ∧
      ∀ t, ∃ rest, program t = callsOf t calls ++ rest ∧
        a.todo t = rest.map (Op.block accountId)) ⟨[], rfl, rfl, fun t => ⟨program t, rfl, rfl⟩⟩ ?_
  rintro h a t e a' ⟨calls, hh, hvalue, htodo⟩ _ hs
  obtain ⟨rest, hprogram, hrest⟩ := htodo t
  rw [Synchronized.Serial.step, hrest] at hs
  cases rest with
  | nil => cases hs
  | cons op rest =>
      cases hs
      refine ⟨calls ++ [(t, op)], ?_, ?_, fun u => ?_⟩
      · rw [serially_snoc, hh, ← hvalue, run_block]
      · rw [serially_snoc, ← hvalue, run_block]
      · show ∃ rest', _ ∧ Function.update a.todo t (rest.map _) u = _
        by_cases hu : u = t
        · subst hu
          refine ⟨rest, ?_, Function.update_self _ _ _⟩
          rw [callsOf_snoc_self, List.append_assoc]
          exact hprogram
        · rw [callsOf_snoc_of_ne hu, Function.update_of_ne hu]
          exact htodo u

/-- Where all calls are over nothing is under way. -/
theorem exists_serial {m : ι → α} {program : τ → List (Op ι α)}
    {h : List (Synchronized.Event τ (Obj ι) ι (Result α))} {s : Bank τ ι α}
    (hr : Run step anyStep (start accountId m program) h s) :
    ∃ calls : List (τ × Op ι α),
      (∀ t, callsOf t calls <+: program t ∧
        ((s.thread t).Finished → callsOf t calls = program t)) ∧
      returned h = (serially accountId m calls).1 ∧
      ∀ a, s.holder (.account a) = none → s.value a = (serially accountId m calls).2 a := by
  obtain ⟨a, hrun, hR⟩ := Synchronized.run_serial Obj.account (fun t call hcall => by
    obtain ⟨op, -, rfl⟩ := List.mem_map.mp hcall
    exact twoPhase_block op) hr
  obtain ⟨calls, hh, hvalue, htodo⟩ := run_serially hrun
  refine ⟨calls, fun t => ?_, hh, fun b hfree => ?_⟩
  · obtain ⟨rest, hprogram, hrest⟩ := htodo t
    refine ⟨⟨rest, hprogram.symm⟩, fun hfinished => ?_⟩
    have hanswers := hR.answers t
    rw [hfinished] at hanswers
    have hnil : a.todo t = [] := hanswers
    rw [hnil] at hrest
    rw [hprogram, List.map_eq_nil_iff.mp hrest.symm, List.append_nil]
  · rw [← hvalue]
    refine hR.settled b fun t _ hmem => ?_
    rw [(hR.holderOk _ t).mpr hmem] at hfree
    cases hfree

/-- **The bank is serializable.**  Whatever the threads call and however they are scheduled, the run
comes to an end, and the results are those of the same calls made one at a time, in some order that
is that of each thread; the balance of an account whose monitor is free is the one after them. -/
theorem transfers_serializable [Fintype τ] (accountId : ι → String) (m : ι → α)
    (program : τ → List (Op ι α)) :
    Halts step (start accountId m program) ∧
      ∀ h s, Run step anyStep (start accountId m program) h s → ∃ calls : List (τ × Op ι α),
        (∀ t, callsOf t calls <+: program t ∧
          ((s.thread t).Finished → callsOf t calls = program t)) ∧
        returned h = (serially accountId m calls).1 ∧
        ∀ a, s.holder (.account a) = none → s.value a = (serially accountId m calls).2 a :=
  ⟨Synchronized.halts _, fun _ _ hr => exists_serial hr⟩

end Serially

/-! ## Deadlocks -/

section Deadlocks

variable {τ ι α : Type*} [Zero α] [Add α] [Sub α] [LE α] [LT α] [DecidableLE α] [DecidableLT α]
  [ToString α] {accountId : ι → String}

/-- The monitor of the ledger, and then those of the accounts in the order of their ids. -/
def Obj.rank (accountId : ι → String) : Obj ι → WithBot (List ℕ)
  | .ledger => ⊥
  | .account a => Utf16.units (accountId a)

/-- Every call takes its locks in order. -/
theorem ordered_block (hid : Function.Injective accountId) (op : Op ι α) :
    (op.block accountId).Ordered (Obj.rank accountId) [] := by
  rcases block_cases accountId op with
    ⟨a, rest, hblock, hinside⟩ | ⟨source, target, rest, hblock, hinside⟩
  · rw [hblock]
    exact ⟨Or.inr nofun, hinside.ordered⟩
  · rw [hblock]
    refine ⟨Or.inr nofun, ?_, hinside.ordered⟩
    rw [inOrder]
    split_ifs with hlt
    · refine Or.inr fun o ho => ?_
      rw [List.mem_singleton.mp ho]
      exact WithBot.coe_lt_coe.mpr ((Utf16.compareTo_neg_iff _ _).mp hlt)
    · rw [Utf16.compareTo_neg_iff] at hlt
      rcases lt_trichotomy (Utf16.units (accountId source)) (Utf16.units (accountId target)) with
        hlt' | heq | hgt
      · exact absurd hlt' hlt
      · -- it is one account
        rw [hid (Utf16.units_injective heq)]
        exact Or.inl List.mem_cons_self
      · refine Or.inr fun o ho => ?_
        rw [List.mem_singleton.mp ho]
        exact WithBot.coe_lt_coe.mpr hgt

omit [Zero α] [Sub α] [LE α] [LT α] [DecidableLE α] [DecidableLT α] [ToString α] in
/-- `printStatement` takes one account lock at a time. -/
theorem ordered_printLines (accounts : List ι) (lines : List (String × α)) (total : α) :
    (printLines accountId accounts lines total).Ordered (Obj.rank accountId) [.ledger] := by
  induction accounts generalizing lines total with
  | nil => trivial
  | cons a accounts ih =>
      refine ⟨Or.inr fun o ho => ?_, ?_⟩
      · rw [List.mem_singleton.mp ho]
        exact WithBot.bot_lt_coe _
      · rw [Block.Ordered]
        exact fun balance => ih _ _

/-- So does every call, with those of the ledger. -/
theorem ordered_call (hid : Function.Injective accountId) (accounts : List ι) (call : Call ι α) :
    (call.block accountId accounts).Ordered (Obj.rank accountId) [] := by
  cases call with
  | op op => exact ordered_block hid op
  | printStatement => exact ⟨Or.inr nofun, ordered_printLines accounts [] 0⟩

/-- Two threads that transfer in opposite directions between accounts of one id. -/
def oppositeTransfers (a b : ι) (t : Fin 2) : List (Call ι α) :=
  if t.val = 0 then [.op (.transfer a b 0)] else [.op (.transfer b a 0)]

variable [DecidableEq ι]

/-- Each of the two has entered the monitor that the other one waits for. -/
theorem opposite_deadlock (m : ι → α) (accounts : List ι) {a b : ι} (hne : a ≠ b)
    (hid : accountId a = accountId b) :
    ∃ h s, Run step anyStep (Synchronized.start m fun t =>
        (oppositeTransfers (α := α) a b t).map (Call.block accountId accounts)) h s ∧
      (∀ t, step s t = none) ∧ ¬ (s.thread 0).Finished := by
  have hlt : ¬ Utf16.compareTo (accountId a) (accountId b) < 0 := by
    rw [hid, Utf16.compareTo_neg_iff]
    exact lt_irrefl _
  have hlt' : ¬ Utf16.compareTo (accountId b) (accountId a) < 0 := by
    rw [hid, Utf16.compareTo_neg_iff]
    exact lt_irrefl _
  have hab : (Call.op (.transfer a b (0 : α))).block accountId accounts =
      .enter (.account b) (.enter (.account a) (makeTransfer accountId a b 0)) := by
    rw [Call.block, Op.block, transfer, inOrder, if_neg hlt]
  have hba : (Call.op (.transfer b a (0 : α))).block accountId accounts =
      .enter (.account a) (.enter (.account b) (makeTransfer accountId b a 0)) := by
    rw [Call.block, Op.block, transfer, inOrder, if_neg hlt']
  have haccount : Obj.account a ≠ Obj.account b := fun heq => hne (Obj.account.inj heq)
  have hthread₀ : (Synchronized.start m fun t : Fin 2 =>
      (oppositeTransfers (α := α) a b t).map (Call.block accountId accounts)).thread 0 =
      ⟨[], none,
        [.enter (.account b) (.enter (.account a) (makeTransfer accountId a b 0))]⟩ := by
    simp [Synchronized.start, oppositeTransfers, hab]
  have hthread₁ : (Synchronized.start m fun t : Fin 2 =>
      (oppositeTransfers (α := α) a b t).map (Call.block accountId accounts)).thread 1 =
      ⟨[], none,
        [.enter (.account a) (.enter (.account b) (makeTransfer accountId b a 0))]⟩ := by
    simp [Synchronized.start, oppositeTransfers, hba]
  obtain ⟨h, s, hr, hthread, -, hstuck, hstuck'⟩ := Synchronized.exists_deadlock
    (s := Synchronized.start m fun t =>
      (oppositeTransfers (α := α) a b t).map (Call.block accountId accounts))
    (t := 0) (u := 1) (by decide) haccount hthread₀ hthread₁ rfl rfl
  refine ⟨h, s, hr, Fin.forall_fin_two.mpr ⟨hstuck, hstuck'⟩, fun hfinished => ?_⟩
  rw [hthread] at hfinished
  cases hfinished

/-- With different ids all calls return. -/
theorem finished_of_injective [DecidableEq τ] [Finite τ]
    (hid : Function.Injective accountId) {accounts : List ι} {m : ι → α}
    {calls : τ → List (Call ι α)} {h : List (Synchronized.Event τ (Obj ι) ι (Result α))}
    {s : Bank τ ι α} (hr : Run step anyStep
      (Synchronized.start m fun t => (calls t).map (Call.block accountId accounts)) h s)
    (hstuck : ∀ t, step s t = none) (t : τ) : (s.thread t).Finished := by
  refine Synchronized.finished_of_ordered (Obj.rank accountId) (fun t call hcall => ?_) hr hstuck t
  obtain ⟨c, -, rfl⟩ := List.mem_map.mp hcall
  exact ordered_call hid accounts c

/-- **Deadlocks.**  Nobody waits for ever, whatever is called by how many threads, if and only if
no two accounts have the same id. -/
theorem deadlock_free_iff (accountId : ι → String) (accounts : List ι) (m : ι → α) :
    (∀ n (calls : Fin n → List (Call ι α)) h s,
      Run step anyStep
        (Synchronized.start m fun t => (calls t).map (Call.block accountId accounts)) h s →
      (∀ t, step s t = none) → ∀ t, (s.thread t).Finished) ↔ Function.Injective accountId := by
  constructor
  · intro hfree a b hid
    by_contra hne
    obtain ⟨h, s, hr, hstuck, hnot⟩ := opposite_deadlock (α := α) m accounts hne hid
    exact hnot (hfree 2 _ h s hr hstuck 0)
  · intro hid n calls h s hr hstuck
    exact finished_of_injective hid hr hstuck

end Deadlocks

/-! ## The ledger -/

/-- The accounts of a ledger, in the order in which they were opened, with their balances. -/
structure Ledger (α : Type*) where
  accounts : List (String × α)
  /-- no id is there twice -/
  nodup : (accounts.map Prod.fst).Nodup

namespace Ledger

variable {α : Type*}

/-- `Ledger()` has no accounts. -/
def new : Ledger α := ⟨[], List.nodup_nil⟩

/-- `openAccount` refuses an id that is taken. -/
def openAccount (ledger : Ledger α) (id : String) (initialBalance : α) :
    Except String (Ledger α) :=
  if hid : id ∈ ledger.accounts.map Prod.fst then .error s!"account '{id}' already exists"
  else
    .ok ⟨ledger.accounts ++ [(id, initialBalance)], by
      rw [List.map_append, List.nodup_append]
      refine ⟨ledger.nodup, List.nodup_singleton id, fun a ha b hb hab => hid ?_⟩
      rw [show id = b from (List.mem_singleton.mp hb).symm, ← hab]
      exact ha⟩

/-- `getAccount` : where the account of this id is. -/
def getAccount (ledger : Ledger α) (id : String) : Option (Fin ledger.accounts.length) :=
  (List.finRange ledger.accounts.length).find? fun i => (ledger.accounts.get i).1 = id

/-- The id of the account in place `i`. -/
def accountId (ledger : Ledger α) (i : Fin ledger.accounts.length) : String :=
  (ledger.accounts.get i).1

/-- No two accounts have one id. -/
theorem accountId_injective (ledger : Ledger α) : Function.Injective ledger.accountId := by
  intro i j hij
  have hget : ledger.accounts.get i = ledger.accounts.get j :=
    List.inj_on_of_nodup_map ledger.nodup (List.get_mem _ i) (List.get_mem _ j) hij
  exact List.nodup_iff_injective_get.mp (List.Nodup.of_map Prod.fst ledger.nodup) hget

/-- An id that is found is that of the account. -/
theorem accountId_of_getAccount {ledger : Ledger α} {id : String}
    {i : Fin ledger.accounts.length} (h : ledger.getAccount id = some i) :
    ledger.accountId i = id := by
  rw [getAccount] at h
  have hid := List.find?_some h
  exact of_decide_eq_true hid

/-- `getAccount` finds the account with that id. -/
theorem getAccount_eq_some_iff (ledger : Ledger α) (id : String)
    (i : Fin ledger.accounts.length) :
    ledger.getAccount id = some i ↔ ledger.accountId i = id := by
  refine ⟨accountId_of_getAccount, fun h => ?_⟩
  cases hfind : ledger.getAccount id with
  | none =>
      rw [getAccount] at hfind
      have hnot := List.find?_eq_none.mp hfind i (List.mem_finRange i)
      exact absurd (decide_eq_true h) hnot
  | some j => rw [ledger.accountId_injective ((accountId_of_getAccount hfind).trans h.symm)]

/-- **The accounts of one ledger.**  Whatever is called by how many threads, and whatever the
balances are by then, every run ends, and where nobody can go on all calls have returned. -/
theorem no_deadlock [Zero α] [Add α] [Sub α] [LE α] [LT α] [DecidableLE α] [DecidableLT α]
    [ToString α] {τ : Type*} [Fintype τ] [DecidableEq τ] (ledger : Ledger α)
    (m : Fin ledger.accounts.length → α)
    (calls : τ → List (Call (Fin ledger.accounts.length) α)) :
    Halts step (Synchronized.start m fun t =>
        (calls t).map (Call.block ledger.accountId (List.finRange _))) ∧
      ∀ h s, Run step anyStep (Synchronized.start m fun t =>
          (calls t).map (Call.block ledger.accountId (List.finRange _))) h s →
        (∀ t, step s t = none) → ∀ t, (s.thread t).Finished := by
  refine ⟨Synchronized.halts _, fun h s hr hstuck => ?_⟩
  exact finished_of_injective ledger.accountId_injective hr hstuck

end Ledger

end ScalaBank

end Lock
