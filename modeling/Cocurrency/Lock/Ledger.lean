/-
# The accounts as one ledger (`python/shared_memory_lock/bank_account.py`)

The plain map from accounts to balances, on which a call is made at once.  `exec_call` : the body of
a call, run at once, is the call on the plain map.
-/
import Cocurrency.Lock.Deadlock
import Mathlib.Algebra.BigOperators.Group.Finset.Basic
import Mathlib.Algebra.BigOperators.Group.List.Basic
import Mathlib.Algebra.Ring.Int.Defs

namespace Lock

/-- Both accounts, in either order. -/
theorem mem_inOrder {ι : Type*} {accountId : ι → String} {fromAccount toAccount account : ι} :
    account ∈ inOrder accountId fromAccount toAccount ↔
      account = fromAccount ∨ account = toAccount := by
  rw [inOrder]
  split
  · simp
  · simp [or_comm]

/-! ## The plain map -/

section Spec

variable {ι : Type*} [DecidableEq ι]

/-- A call on a map from accounts to balances: how it ends, and the map afterwards. -/
def Op.onLedger (accountId : ι → String) : Op ι → (ι → ℤ) → Result × (ι → ℤ)
  | .deposit account amount, m =>
      if amount ≤ 0 then (.raised "Deposit amount must be positive", m)
      else (.returned none, Function.update m account (m account + amount))
  | .withdraw account amount, m =>
      if amount ≤ 0 then (.raised "Withdrawal amount must be positive", m)
      else if m account < amount then
        let balance := m account
        (.raised s!"Insufficient funds: balance={balance}, withdrawal={amount}", m)
      else (.returned none, Function.update m account (m account - amount))
  | .getBalance account, m => (.returned (some (m account)), m)
  | .transfer fromAccount toAccount amount _, m =>
      if amount ≤ 0 then (.raised "Transfer amount must be positive", m)
      else if m fromAccount < amount then
        let id := accountId fromAccount
        let balance := m fromAccount
        (.raised s!"Insufficient funds in {id}: balance={balance}, transfer={amount}", m)
      else
        (.returned none,
          Function.update (Function.update m fromAccount (m fromAccount - amount)) toAccount
            (m toAccount + amount))

/-- What a call that ends so adds to the sum of all balances. -/
def Op.gain : Op ι → Result → ℤ
  | .deposit _ amount, .returned _ => amount
  | .withdraw _ amount, .returned _ => -amount
  | _, _ => 0

/-- A call in the order, with its result. -/
structure Entry (τ ι : Type*) where
  thread : τ
  op : Op ι
  result : Result

/-- One call of one thread on the map. -/
def ledgerStep {τ : Type*} (accountId : ι → String) (m : ι → ℤ) (c : τ × Op ι) :
    Option (Entry τ ι × (ι → ℤ)) :=
  some (⟨c.1, c.2, (c.2.onLedger accountId m).1⟩, (c.2.onLedger accountId m).2)

variable {accountId : ι → String} {m : ι → ℤ}

/-- A call that raises an error leaves the map as it is. -/
theorem onLedger_of_raised {op : Op ι} {message : String}
    (h : (op.onLedger accountId m).1 = .raised message) : (op.onLedger accountId m).2 = m := by
  revert h
  cases op with
  | deposit account amount =>
      rw [Op.onLedger]
      split_ifs <;> simp
  | withdraw account amount =>
      rw [Op.onLedger]
      split_ifs <;> simp
  | getBalance account => exact fun _ => rfl
  | transfer fromAccount toAccount amount ne =>
      rw [Op.onLedger]
      split_ifs <;> simp

/-- A sum after one change. -/
theorem sum_update {accounts : Finset ι} {account : ι} (hmem : account ∈ accounts) (b : ℤ) :
    ∑ x ∈ accounts, Function.update m account b x = ∑ x ∈ accounts, m x + (b - m account) := by
  have hrest := Finset.add_sum_erase accounts m hmem
  have hrest' := Finset.add_sum_erase accounts (Function.update m account b) hmem
  have hsame : ∑ x ∈ accounts.erase account, Function.update m account b x =
      ∑ x ∈ accounts.erase account, m x :=
    Finset.sum_congr rfl fun x hx => Function.update_of_ne (Finset.ne_of_mem_erase hx) b m
  rw [Function.update_self, hsame] at hrest'
  omega

/-- The sum of the balances changes by the gain of the call only. -/
theorem sum_onLedger (op : Op ι) {accounts : Finset ι}
    (hmem : ∀ account ∈ (op.call accountId).locks, account ∈ accounts) :
    ∑ account ∈ accounts, (op.onLedger accountId m).2 account =
      ∑ account ∈ accounts, m account + op.gain (op.onLedger accountId m).1 := by
  cases op with
  | deposit account amount =>
      have hself : account ∈ accounts := hmem account List.mem_cons_self
      rw [Op.onLedger]
      split_ifs with hpos
      · simp [Op.gain]
      · simp [Op.gain, sum_update hself]
  | withdraw account amount =>
      have hself : account ∈ accounts := hmem account List.mem_cons_self
      rw [Op.onLedger]
      split_ifs with hpos hlt
      · simp [Op.gain]
      · simp [Op.gain]
      · simp [Op.gain, sum_update hself, sub_eq_add_neg]
  | getBalance account => simp [Op.onLedger, Op.gain]
  | transfer fromAccount toAccount amount ne =>
      have hfrom : fromAccount ∈ accounts := hmem fromAccount (mem_inOrder.mpr (Or.inl rfl))
      have hto : toAccount ∈ accounts := hmem toAccount (mem_inOrder.mpr (Or.inr rfl))
      rw [Op.onLedger]
      split_ifs with hpos hlt
      · simp [Op.gain]
      · simp [Op.gain]
      · -- what one account loses the other one gains
        rw [sum_update hto, sum_update hfrom, Function.update_of_ne ne.symm]
        simp only [Op.gain]
        omega

end Spec

/-! ## A body that runs at once -/

section Bodies

variable {ι : Type*}

/-- The body only reads and writes these accounts. -/
inductive Body.Within (locks : List ι) : Body ι → Prop
  | read {account : ι} {next : ℤ → Body ι} : account ∈ locks →
      (∀ balance, (next balance).Within locks) → Body.Within locks (.read account next)
  | write {account : ι} {balance : ℤ} {next : Body ι} : account ∈ locks → next.Within locks →
      Body.Within locks (.write account balance next)
  | ends {result : Result} : Body.Within locks (.ends result)

/-- The body no longer raises an error. -/
inductive Body.Returns : Body ι → Prop
  | read {account : ι} {next : ℤ → Body ι} : (∀ balance, (next balance).Returns) →
      Body.Returns (.read account next)
  | write {account : ι} {balance : ℤ} {next : Body ι} : next.Returns →
      Body.Returns (.write account balance next)
  | ends {value : Option ℤ} : Body.Returns (.ends (.returned value))

/-- More locks. -/
theorem Body.Within.mono {locks locks' : List ι} {b : Body ι} (hw : b.Within locks)
    (hsub : ∀ account ∈ locks, account ∈ locks') : b.Within locks' := by
  induction hw with
  | read hmem _ ih => exact .read (hsub _ hmem) ih
  | write hmem _ ih => exact .write (hsub _ hmem) ih
  | ends => exact .ends

/-- A call locks some account. -/
theorem locks_ne_nil {accountId : ι → String} (op : Op ι) : (op.call accountId).locks ≠ [] := by
  cases op with
  | deposit account amount => exact List.cons_ne_nil _ _
  | withdraw account amount => exact List.cons_ne_nil _ _
  | getBalance account => exact List.cons_ne_nil _ _
  | transfer fromAccount toAccount amount ne =>
      intro hnil
      have hmem : fromAccount ∈ inOrder accountId fromAccount toAccount :=
        mem_inOrder.mpr (Or.inl rfl)
      rw [show inOrder accountId fromAccount toAccount = [] from hnil] at hmem
      exact List.not_mem_nil hmem

/-- The accounts of a call are those that it locks. -/
theorem within_call (accountId : ι → String) (op : Op ι) :
    (op.call accountId).body.Within (op.call accountId).locks := by
  cases op with
  | deposit account amount =>
      have hmem : account ∈ (deposit account amount).locks := List.mem_cons_self
      show (deposit account amount).body.Within (deposit account amount).locks
      rw [deposit] at hmem ⊢
      split_ifs
      · exact .ends
      · exact .read hmem fun _ => .write hmem .ends
  | withdraw account amount =>
      have hmem : account ∈ (withdraw account amount).locks := List.mem_cons_self
      show (withdraw account amount).body.Within (withdraw account amount).locks
      rw [withdraw] at hmem ⊢
      split_ifs
      · exact .ends
      · refine .read hmem fun _ => ?_
        split_ifs
        · exact .read hmem fun _ => .ends
        · exact .read hmem fun _ => .write hmem .ends
  | getBalance account => exact .read List.mem_cons_self fun _ => .ends
  | transfer fromAccount toAccount amount ne =>
      have hfrom : fromAccount ∈ inOrder accountId fromAccount toAccount :=
        mem_inOrder.mpr (Or.inl rfl)
      have hto : toAccount ∈ inOrder accountId fromAccount toAccount :=
        mem_inOrder.mpr (Or.inr rfl)
      show (transfer accountId fromAccount toAccount amount).body.Within
        (inOrder accountId fromAccount toAccount)
      rw [transfer]
      split_ifs
      · exact .ends
      · refine .read hfrom fun _ => ?_
        split_ifs
        · exact .read hfrom fun _ => .ends
        · exact .read hfrom fun _ => .write hfrom (.read hto fun _ => .write hto .ends)

variable [DecidableEq ι]

/-- The rest of a body, while nobody else writes: its result, and the balances afterwards. -/
def Body.exec : Body ι → (ι → ℤ) → Result × (ι → ℤ)
  | .read account next, m => (next (m account)).exec m
  | .write account balance next, m => next.exec (Function.update m account balance)
  | .ends result, m => (result, m)

/-- Run from these balances, the body writes no negative one, and raises no error once it has
written. -/
def Body.Safe : Body ι → (ι → ℤ) → Prop
  | .read account next, m => (next (m account)).Safe m
  | .write account balance next, m =>
      0 ≤ balance ∧ next.Returns ∧ next.Safe (Function.update m account balance)
  | .ends _, _ => True

variable {locks : List ι} {b : Body ι} {m m' : ι → ℤ}

/-- The body depends on the balances of its accounts only. -/
theorem exec_congr (hw : b.Within locks) (h : ∀ account ∈ locks, m account = m' account) :
    (b.exec m).1 = (b.exec m').1 ∧
      ∀ account ∈ locks, (b.exec m).2 account = (b.exec m').2 account := by
  induction hw generalizing m m' with
  | @read account next hmem _ ih =>
      rw [Body.exec, Body.exec, h account hmem]
      exact ih (m' account) h
  | @write account balance next _ _ ih =>
      refine ih fun account' hmem' => ?_
      by_cases ha : account' = account
      · rw [ha, Function.update_self, Function.update_self]
      · rw [Function.update_of_ne ha, Function.update_of_ne ha]
        exact h account' hmem'
  | ends => exact ⟨rfl, h⟩

/-- The body sees the balances of its locks only. -/
theorem safe_congr (hw : b.Within locks) (h : ∀ account ∈ locks, m account = m' account)
    (hs : b.Safe m) : b.Safe m' := by
  induction hw generalizing m m' with
  | @read account next hmem _ ih =>
      rw [Body.Safe, ← h account hmem]
      exact ih (m account) h hs
  | @write account balance next _ _ ih =>
      obtain ⟨hnonneg, hreturns, hs⟩ := hs
      refine ⟨hnonneg, hreturns, ih (fun account' hmem' => ?_) hs⟩
      by_cases ha : account' = account
      · rw [ha, Function.update_self, Function.update_self]
      · rw [Function.update_of_ne ha, Function.update_of_ne ha]
        exact h account' hmem'
  | ends => trivial

/-- The other accounts keep their balances. -/
theorem exec_of_not_mem (hw : b.Within locks) {account : ι} (hnot : account ∉ locks) :
    (b.exec m).2 account = m account := by
  induction hw generalizing m with
  | read _ _ ih => exact ih _
  | @write account' _ _ hmem _ ih =>
      rw [Body.exec, ih, Function.update_of_ne]
      rintro rfl
      exact hnot hmem
  | ends => rfl

variable {accountId : ι → String}

/-- **A call that runs at once** is the call on the plain map. -/
theorem exec_call (op : Op ι) (m : ι → ℤ) :
    (op.call accountId).body.exec m = op.onLedger accountId m := by
  cases op with
  | deposit account amount =>
      show (deposit account amount).body.exec m = _
      rw [deposit, Op.onLedger]
      split_ifs <;> rfl
  | withdraw account amount =>
      show (withdraw account amount).body.exec m = _
      rw [withdraw, Op.onLedger]
      split_ifs with hpos hlt
      · rfl
      · simp [Body.exec, hlt]
      · simp [Body.exec, hlt]
  | getBalance account => rfl
  | transfer fromAccount toAccount amount ne =>
      show (transfer accountId fromAccount toAccount amount).body.exec m = _
      rw [transfer, Op.onLedger]
      split_ifs with hpos hlt
      · rfl
      · simp [Body.exec, hlt]
      · simp [Body.exec, hlt, Function.update_of_ne ne.symm]

/-- No call makes a balance negative where none is. -/
theorem safe_call (op : Op ι) (hnonneg : ∀ account, 0 ≤ m account) :
    (op.call accountId).body.Safe m := by
  cases op with
  | deposit account amount =>
      have hbalance := hnonneg account
      show (deposit account amount).body.Safe m
      rw [deposit]
      split_ifs with hpos
      · trivial
      · exact ⟨by omega, .ends, trivial⟩
  | withdraw account amount =>
      show (withdraw account amount).body.Safe m
      rw [withdraw]
      split_ifs with hpos
      · trivial
      · simp only [Body.Safe]
        split_ifs with hlt
        · trivial
        · exact ⟨by omega, .ends, trivial⟩
  | getBalance account => trivial
  | transfer fromAccount toAccount amount ne =>
      have hbalance := hnonneg toAccount
      show (transfer accountId fromAccount toAccount amount).body.Safe m
      rw [transfer]
      split_ifs with hpos
      · trivial
      · simp only [Body.Safe]
        split_ifs with hlt
        · trivial
        · refine ⟨by omega, .read fun _ => .write .ends, ?_, .ends, trivial⟩
          rw [Function.update_of_ne ne.symm]
          omega

end Bodies

/-! ## Histories -/

section Histories

variable {τ ι : Type*} [DecidableEq τ]

/-- The thread that takes the step. -/
def Event.thread : Event τ ι → τ
  | called t _ | acquired t _ | hasRead t _ _ | wrote t _ _ | released t _ | ended t _ => t

/-- The call that thread `t` makes. -/
def Event.opOf (t : τ) : Event τ ι → Option (Op ι)
  | called u op => if u = t then some op else none
  | _ => none

/-- The result that thread `t` has. -/
def Event.resultOf (t : τ) : Event τ ι → Option Result
  | ended u result => if u = t then some result else none
  | _ => none

/-- The calls that thread `t` has made. -/
def opsOf (t : τ) (h : List (Event τ ι)) : List (Op ι) := h.filterMap (Event.opOf t)

/-- The results of those that have ended. -/
def resultsOf (t : τ) (h : List (Event τ ι)) : List Result := h.filterMap (Event.resultOf t)

/-- What thread `t` has written since it made its last call. -/
def written (t : τ) (h : List (Event τ ι)) : List (ι × ℤ) :=
  h.foldl (fun done e => match e with
    | .called u _ => if u = t then [] else done
    | .wrote u account balance => if u = t then done ++ [(account, balance)] else done
    | _ => done) []

/-- The calls of thread `t` in the order. -/
def entriesOf (t : τ) (order : List (Entry τ ι)) : List (Entry τ ι) :=
  order.filter fun entry => entry.thread = t

variable {t u : τ} {h : List (Event τ ι)} {order : List (Entry τ ι)} {e : Event τ ι}

/-- An event that calls nothing. -/
theorem opsOf_of_none (hnone : e.opOf t = none) : opsOf t (h ++ [e]) = opsOf t h := by
  simp [opsOf, List.filterMap_append, hnone]

/-- An event that ends no call. -/
theorem resultsOf_of_none (hnone : e.resultOf t = none) :
    resultsOf t (h ++ [e]) = resultsOf t h := by
  simp [resultsOf, List.filterMap_append, hnone]

/-- A call more. -/
theorem opsOf_called (op : Op ι) : opsOf t (h ++ [.called t op]) = opsOf t h ++ [op] := by
  simp [opsOf, List.filterMap_append, Event.opOf]

/-- A result more. -/
theorem resultsOf_ended (result : Result) :
    resultsOf t (h ++ [.ended t result]) = resultsOf t h ++ [result] := by
  simp [resultsOf, List.filterMap_append, Event.resultOf]

theorem opsOf_of_ne (hne : e.thread ≠ u) : opsOf u (h ++ [e]) = opsOf u h := by
  refine opsOf_of_none ?_
  cases e with
  | called t op => exact if_neg hne
  | _ => rfl

theorem resultsOf_of_ne (hne : e.thread ≠ u) : resultsOf u (h ++ [e]) = resultsOf u h := by
  refine resultsOf_of_none ?_
  cases e with
  | ended t result => exact if_neg hne
  | _ => rfl

theorem written_of_ne (hne : e.thread ≠ u) : written u (h ++ [e]) = written u h := by
  rw [written, List.foldl_append]
  cases e with
  | called t op => exact if_neg hne
  | wrote t account balance => exact if_neg hne
  | _ => rfl

theorem entriesOf_self {entry : Entry τ ι} (heq : entry.thread = t) :
    entriesOf t (order ++ [entry]) = entriesOf t order ++ [entry] := by
  simp [entriesOf, List.filter_append, heq]

theorem entriesOf_of_ne {entry : Entry τ ι} (hne : entry.thread ≠ u) :
    entriesOf u (order ++ [entry]) = entriesOf u order := by
  simp [entriesOf, List.filter_append, hne]

end Histories

end Lock
