/-
# `safeTransfer` (`haskell/stm/STMBank.hs`) and `stm_bank_transfer`

The Haskell transfer debits the source, and then reads the target that it credits.  The Python one
reads both balances first, and its two writes meet in the write set: if source and target are the
same account, the second one is all that is left of them, and the account is credited with an amount
that nobody has paid.

GHC's `Int` has 64 bits and wraps around, Python's integers do not.

* `run_stmBankTransfer` : what a committed `stm_bank_transfer` makes of the balances, in any
  interleaving;
* `SharedTransfer.agrees_haskell_iff` : when that is what `safeTransfer` makes of them.
-/
import Cocurrency.Lib.FixedWidth
import Cocurrency.Stm.Bank
import Cocurrency.Stm.Registered

namespace Stm

/-! ## The Haskell code -/

namespace Haskell

variable {ι : Type}

/-- The balances, as the transactions of GHC see them; each runs as a whole. -/
abbrev STM (ι : Type) := StateM (ι → Int64)

/-- `readTVar`. -/
def readTVar (account : ι) : STM ι Int64 := do
  return (← get) account

variable [DecidableEq ι]

/-- `writeTVar`. -/
def writeTVar (account : ι) (balance : Int64) : STM ι Unit :=
  modify fun balances => Function.update balances account balance

/-- `modifyTVar'`. -/
def modifyTVar' (account : ι) (f : Int64 → Int64) : STM ι Unit := do
  writeTVar account (f (← readTVar account))

/-- `safeTransfer`. -/
def safeTransfer (fromAcc toAcc : ι) (amount : Int64) : STM ι Bool := do
  let fromBal ← readTVar fromAcc
  if fromBal < amount then
    return false
  else
    writeTVar fromAcc (fromBal - amount)
    modifyTVar' toAcc (· + amount)
    return true

theorem run_safeTransfer (fromAcc toAcc : ι) (amount : Int64) (balances : ι → Int64) :
    (safeTransfer fromAcc toAcc amount).run balances =
      if balances fromAcc < amount then (false, balances)
      else
        (true, Function.update (Function.update balances fromAcc (balances fromAcc - amount)) toAcc
          (Function.update balances fromAcc (balances fromAcc - amount) toAcc + amount)) := by
  rw [safeTransfer, StateT.run_bind]
  show (if balances fromAcc < amount then _ else _ : STM ι Bool).run balances = _
  split
  · rfl
  · rfl

/-- What a transfer leaves when the source covers it. -/
theorem safeTransfer_of_covered {fromAcc toAcc : ι} {amount : Int64} {balances : ι → Int64}
    (hcover : amount ≤ balances fromAcc) (account : ι) :
    ((safeTransfer fromAcc toAcc amount).run balances).2 account =
      if account = toAcc then
        if toAcc = fromAcc then balances toAcc else balances toAcc + amount
      else if account = fromAcc then balances fromAcc - amount
      else balances account := by
  rw [run_safeTransfer, if_neg (Int64.not_lt.mpr hcover)]
  show Function.update _ _ _ account = _
  by_cases hto : account = toAcc
  · subst hto
    rw [if_pos rfl, Function.update_self]
    by_cases hself : account = fromAcc
    · subst hself
      rw [if_pos rfl, Function.update_self, Int64.sub_add_cancel]
    · rw [if_neg hself, Function.update_of_ne hself]
  · rw [if_neg hto, Function.update_of_ne hto, Function.update_apply]

end Haskell

/-! ## The Python code -/

section Body

variable {ι : Type} [DecidableEq ι] {fromAcc toAcc ledger : ι} {amount : ℤ}

/-- A transfer that returns without having signalled retry has read the two balances and then the
counter; the second balance is on record, the first one unless the accounts are the same; and it
writes the target last. -/
theorem exec_stmBankTransfer (hfrom : ledger ≠ fromAcc) (hto : ledger ≠ toAcc)
    (env : ℕ → ι → TVar ℤ) (res : Result ι ℤ String)
    (hres : (stmBankTransfer fromAcc toAcc amount ledger).exec env 0 .init = res)
    (hflag : res.txn.shouldRetry = false) :
    (fromAcc, env 0 fromAcc) ∈ res.reads ∧ (toAcc, env 1 toAcc) ∈ res.reads ∧
    res.txn.readSet.get toAcc = some ((env 1 toAcc).value, (env 1 toAcc).version) ∧
    (fromAcc ≠ toAcc →
      res.txn.readSet.get fromAcc = some ((env 0 fromAcc).value, (env 0 fromAcc).version)) ∧
    ∀ account, account ≠ ledger →
      res.txn.writeSet.get account =
        if account = toAcc then some ((env 1 toAcc).value + amount)
        else if account = fromAcc then some ((env 0 fromAcc).value - amount)
        else none := by
  have hread : (Transaction.init.readTvar fromAcc (env 0 fromAcc)).2.writeSet.get toAcc = none :=
    rfl
  rw [stmBankTransfer, Body.exec_readTvar_of_not_written _ _ _ rfl,
    Body.exec_readTvar_of_not_written _ _ _ hread] at hres
  by_cases hcover : (env 0 fromAcc).value < amount
  · -- the transfer has signalled retry
    rw [if_pos hcover] at hres
    subst hres
    cases hflag
  · let both : Transaction ι ℤ :=
      ((Transaction.init.readTvar fromAcc (env 0 fromAcc)).2.readTvar toAcc (env 1 toAcc)).2
    let paid : Transaction ι ℤ :=
      (both.writeTvar fromAcc ((env 0 fromAcc).value - amount)).writeTvar toAcc
        ((env 1 toAcc).value + amount)
    have hledger : paid.writeSet.get ledger = none := by
      show ((Dict.empty.set fromAcc _).set toAcc _).get ledger = none
      rw [Dict.get_set_of_ne _ _ hto, Dict.get_set_of_ne _ _ hfrom, Dict.get_empty]
    rw [if_neg hcover, Body.exec, Body.exec, Body.exec_readTvar_of_not_written _ _ _ hledger,
      Body.exec, Body.exec] at hres
    have hreads : res.txn.readSet =
        ((Dict.empty.set fromAcc ((env 0 fromAcc).value, (env 0 fromAcc).version)).set toAcc
          ((env 1 toAcc).value, (env 1 toAcc).version)).set ledger
            ((env 2 ledger).value, (env 2 ledger).version) := by
      rw [← hres]
      show (paid.readTvar ledger (env 2 ledger)).2.readSet = _
      rw [Transaction.readTvar_of_not_written _ hledger]
      rfl
    have hwrites : res.txn.writeSet =
        ((Dict.empty.set fromAcc ((env 0 fromAcc).value - amount)).set toAcc
          ((env 1 toAcc).value + amount)).set ledger ((env 2 ledger).value + 1) := by
      rw [← hres]
      show (paid.readTvar ledger (env 2 ledger)).2.writeSet.set ledger _ = _
      rw [Transaction.writeSet_readTvar]
      rfl
    rw [hreads, hwrites]
    refine ⟨by simp [← hres, Result.after], by simp [← hres, Result.after], ?_, ?_, ?_⟩
    · rw [Dict.get_set_of_ne _ _ hto.symm, Dict.get_set_self]
    · intro hne
      rw [Dict.get_set_of_ne _ _ hfrom.symm, Dict.get_set_of_ne _ _ hne, Dict.get_set_self]
    · intro account haccount
      rw [Dict.get_set_of_ne _ _ haccount, Dict.get_set, Dict.get_set, Dict.get_empty]

end Body

/-! ## A committed transfer -/

variable {θ ι P : Type} [DecidableEq θ] [DecidableEq ι] {prog : P → Body ι ℤ String}

omit [DecidableEq θ] [DecidableEq ι] in
/-- An entry that has been checked in a state records the TVar of that state. -/
theorem tvar_of_versionOk {s : State θ ι ℤ String P} {rs : List (ι × TVar ℤ)} {tid : ι}
    {tvar : TVar ℤ} (hsound : ReadsSound s.tvars rs) (hmem : (tid, tvar) ∈ rs)
    (hok : versionOk s tid tvar.version = true) : s.tvars tid = tvar ∧ s.idToTvar tid = true := by
  rw [versionOk, Bool.and_eq_true, beq_iff_eq] at hok
  exact ⟨((hsound _ hmem).2 hok.2.symm).symm, hok.1⟩

/-- **A committed transfer.**  Since the state `s₁` in which the commit began no other thread has
written; the target has got the amount, and the source has paid it unless it is the target. -/
theorem run_stmBankTransfer {ok : State θ ι ℤ String P → Action θ P → Prop}
    {s₀ s s' : State θ ι ℤ String P} {h : List (Event θ ι ℤ String P)} (hs₀ : s₀.Quiet)
    (hr : Run (step prog) ok s₀ h s) {a : Action θ P} {i : θ} {p : P} {txn : Transaction ι ℤ}
    {r : String} (hs : step prog s a = some (.commit i p txn r, s')) {fromAcc toAcc ledger : ι}
    {amount : ℤ} (hprog : prog p = stmBankTransfer fromAcc toAcc amount ledger)
    (hfrom : ledger ≠ fromAcc) (hto : ledger ≠ toAcc) :
    ∃ h₁ s₁ h₂, h = h₁ ++ .commitStart i p txn r :: h₂ ∧ Run (step prog) ok s₀ h₁ s₁ ∧
      (∀ j tid value, .write j tid value ∈ h₂ → j = i) ∧
      ∀ account, account ≠ ledger →
        (s'.tvars account).value =
          if account = toAcc then (s₁.tvars toAcc).value + amount
          else if account = fromAcc then (s₁.tvars fromAcc).value - amount
          else (s₁.tvars account).value := by
  obtain ⟨h₁, s₁, h₂, hsplit, hr₁, hph, hwrites, hinstalled⟩ := run_commit hs₀ hr hs
  refine ⟨h₁, s₁, h₂, hsplit, hr₁, hwrites, ?_⟩
  have hsound := run_readsSound hr₁ i
  have hphase := run_phaseRun hr₁ hs₀.idle i
  have hchecked := (run_commitInv_of_quiet hs₀ hr₁).ok i
  rw [hph] at hphase hchecked
  obtain ⟨hflag, hexec⟩ := hphase
  have hrun := hexec _ (follows_follow s₁.tvars (attemptReads i h₁))
  rw [hprog] at hrun
  obtain ⟨hreadFrom, hreadTo, hgetTo, hgetFrom, hget⟩ :=
    exec_stmBankTransfer hfrom hto _ _ hrun hflag
  -- the validated entries are the TVars as they are in `s₁`
  have hcurrent : ∀ tid tvar, (tid, tvar) ∈ attemptReads i h₁ →
      txn.readSet.get tid = some (tvar.value, tvar.version) →
        s₁.tvars tid = tvar ∧ s₁.idToTvar tid = true := by
    intro tid tvar hmem hentry
    exact tvar_of_versionOk hsound hmem (hchecked.1 _ ((Dict.get_eq_some_iff _ _ _).mp hentry))
  obtain ⟨htvarTo, hregTo⟩ := hcurrent _ _ hreadTo hgetTo
  rw [run_idToTvar hr₁] at hregTo
  intro account haccount
  rw [hinstalled, installWrites_registered, hget account haccount]
  by_cases haccTo : account = toAcc
  · subst haccTo
    rw [if_pos rfl, if_pos rfl, ← htvarTo]
    simp [hregTo]
  · rw [if_neg haccTo, if_neg haccTo]
    by_cases haccFrom : account = fromAcc
    · subst haccFrom
      obtain ⟨htvarFrom, hregFrom⟩ := hcurrent _ _ hreadFrom (hgetFrom haccTo)
      rw [run_idToTvar hr₁] at hregFrom
      rw [if_pos rfl, if_pos rfl, ← htvarFrom]
      simp [hregFrom]
    · rw [if_neg haccFrom, if_neg haccFrom]

/-! ## Both transfers -/

/-- A transfer of an amount that is not negative, between two accounts that may be the same, with a
ledger that is no account. -/
structure SharedTransfer (accounts : Finset ι) where
  fromAcc : ι
  toAcc : ι
  amount : Int64
  ledger : ι
  from_mem : fromAcc ∈ accounts
  to_mem : toAcc ∈ accounts
  ledger_notMem : ledger ∉ accounts
  amount_nonneg : 0 ≤ amount

namespace SharedTransfer

variable {accounts : Finset ι} (t : SharedTransfer accounts)

/-- The Python transaction body. -/
def body : Body ι ℤ String := stmBankTransfer t.fromAcc t.toAcc t.amount.toInt t.ledger

/-- The balances after the Haskell transfer. -/
def haskell (balances : ι → Int64) : ι → Int64 :=
  ((Haskell.safeTransfer t.fromAcc t.toAcc t.amount).run balances).2

/-- The accounts are left with the balances after the Haskell transfer, and with the same sum. -/
structure Agrees (balances : ι → Int64) (after : ι → ℤ) : Prop where
  same : ∀ account ∈ accounts, after account = (t.haskell balances account).toInt
  sum_eq : ∑ account ∈ accounts, after account = ∑ account ∈ accounts, (balances account).toInt

omit [DecidableEq ι] in
theorem ne_ledger {account : ι} (haccount : account ∈ accounts) : account ≠ t.ledger := by
  rintro rfl
  exact t.ledger_notMem haccount

omit [DecidableEq ι] in
theorem amount_toInt_nonneg : 0 ≤ t.amount.toInt := Int64.le_iff_toInt_le.mp t.amount_nonneg

/-- A transfer between two accounts, as one of the bank's. -/
def toTransfer (hne : t.fromAcc ≠ t.toAcc) : Transfer accounts where
  fromAcc := t.fromAcc
  toAcc := t.toAcc
  amount := t.amount.toInt
  ledger := t.ledger
  from_mem := t.from_mem
  to_mem := t.to_mem
  from_ne_to := hne
  ledger_notMem := t.ledger_notMem
  amount_nonneg := t.amount_toInt_nonneg

/-- What the Python transfer makes of the balances. -/
def python (balances : ι → ℤ) (account : ι) : ℤ :=
  if account = t.toAcc then balances t.toAcc + t.amount.toInt
  else if account = t.fromAcc then balances t.fromAcc - t.amount.toInt
  else balances account

theorem sum_python (hne : t.fromAcc ≠ t.toAcc) (balances : ι → ℤ) :
    ∑ account ∈ accounts, t.python balances account = ∑ account ∈ accounts, balances account := by
  rw [← sum_plainTransfer balances (t.toTransfer hne)]
  apply Finset.sum_congr rfl
  intro account haccount
  have hledger : account ≠ (t.toTransfer hne).ledger := t.ne_ledger haccount
  rw [if_neg hledger]
  by_cases hto : account = t.toAcc
  · subst hto
    simp [python, toTransfer]
  · by_cases hfrom : account = t.fromAcc
    · subst hfrom
      simp [python, toTransfer, hne]
    · simp [python, toTransfer, hto, hfrom]

/-- No money is moved if the amount is 0. -/
theorem python_of_zero (hzero : t.amount = 0) (balances : ι → ℤ) :
    t.python balances = balances := by
  funext account
  rw [python, hzero]
  split_ifs with hto hfrom
  · simp [hto]
  · simp [hfrom]
  · rfl

theorem haskell_of_zero (hzero : t.amount = 0) {balances : ι → Int64}
    (hcover : t.amount ≤ balances t.fromAcc) (account : ι) :
    t.haskell balances account = balances account := by
  rw [haskell, Haskell.safeTransfer_of_covered hcover, hzero]
  split_ifs with hto hself hfrom
  · rw [hto]
  · simp [hto]
  · simp [hfrom]
  · rfl

theorem agrees_iff {balances : ι → Int64} (hcover : t.amount ≤ balances t.fromAcc) :
    t.Agrees balances (t.python fun account => (balances account).toInt) ↔
      t.amount = 0 ∨
        (t.fromAcc ≠ t.toAcc ∧ (balances t.toAcc).toInt + t.amount.toInt < 2 ^ 63) := by
  have hhaskell : ∀ account, t.haskell balances account = _ :=
    Haskell.safeTransfer_of_covered hcover
  constructor
  · intro hagrees
    have hto := hagrees.same t.toAcc t.to_mem
    rw [hhaskell, if_pos rfl, python, if_pos rfl] at hto
    by_cases hself : t.toAcc = t.fromAcc
    · rw [if_pos hself] at hto
      left
      apply Int64.toInt_inj.mp
      rw [Int64.toInt_zero]
      omega
    · rw [if_neg hself] at hto
      right
      exact ⟨Ne.symm hself, (FixedWidth.toInt_add_eq_iff t.amount_toInt_nonneg).mp hto.symm⟩
  · rintro (hzero | ⟨hne, hfits⟩)
    · rw [t.python_of_zero hzero]
      constructor
      · intro account _
        rw [t.haskell_of_zero hzero hcover]
      · rfl
    · constructor
      · intro account _
        rw [hhaskell, python]
        by_cases hto : account = t.toAcc
        · rw [if_pos hto, if_pos hto, if_neg hne.symm]
          exact ((FixedWidth.toInt_add_eq_iff t.amount_toInt_nonneg).mpr hfits).symm
        · rw [if_neg hto, if_neg hto]
          by_cases hfrom : account = t.fromAcc
          · rw [if_pos hfrom, if_pos hfrom]
            exact (FixedWidth.toInt_sub t.amount_toInt_nonneg
              (Int64.le_iff_toInt_le.mp hcover)).symm
          · rw [if_neg hfrom, if_neg hfrom]
      · exact t.sum_python hne _

theorem Agrees.congr {balances : ι → Int64} {after after' : ι → ℤ} (h : t.Agrees balances after)
    (heq : ∀ account ∈ accounts, after account = after' account) : t.Agrees balances after' := by
  constructor
  · intro account haccount
    rw [← heq account haccount]
    exact h.same account haccount
  · rw [← Finset.sum_congr rfl heq]
    exact h.sum_eq

theorem agrees_congr {balances : ι → Int64} {after after' : ι → ℤ}
    (heq : ∀ account ∈ accounts, after account = after' account) :
    t.Agrees balances after ↔ t.Agrees balances after' := by
  constructor
  · intro h
    exact h.congr t heq
  · intro h
    exact h.congr t fun account haccount => (heq account haccount).symm

/-- **Python and Haskell.**  A committed `stm_bank_transfer` leaves the accounts with the balances
that `safeTransfer` makes of those before it, and with their sum, just if its amount is 0, or it is
between two accounts and the new balance of the target fits in an `Int`. -/
theorem agrees_haskell_iff {prog : P → Body ι ℤ String} {p : P} (hprog : prog p = t.body)
    {s₀ s s' : State θ ι ℤ String P} {h : List (Event θ ι ℤ String P)} (hs₀ : s₀.Quiet)
    (hr : Run (step prog) anyStep s₀ h s) {a : Action θ P} {i : θ} {txn : Transaction ι ℤ}
    {r : String} (hs : step prog s a = some (.commit i p txn r, s')) :
    ∃ h₁ s₁ h₂, h = h₁ ++ .commitStart i p txn r :: h₂ ∧ Run (step prog) anyStep s₀ h₁ s₁ ∧
      (∀ j tid value, .write j tid value ∈ h₂ → j = i) ∧
      ∀ balances : ι → Int64, (∀ account ∈ accounts,
          (s₁.tvars account).value = (balances account).toInt) →
        t.amount ≤ balances t.fromAcc →
          (t.Agrees balances (fun account => (s'.tvars account).value) ↔
            t.amount = 0 ∨
              (t.fromAcc ≠ t.toAcc ∧ (balances t.toAcc).toInt + t.amount.toInt < 2 ^ 63)) := by
  obtain ⟨h₁, s₁, h₂, hsplit, hr₁, hwrites, hafter⟩ := run_stmBankTransfer hs₀ hr hs hprog
    (t.ne_ledger t.from_mem).symm (t.ne_ledger t.to_mem).symm
  refine ⟨h₁, s₁, h₂, hsplit, hr₁, hwrites, ?_⟩
  intro balances hbalances hcover
  have hpython : ∀ account ∈ accounts, (s'.tvars account).value =
      t.python (fun account => (balances account).toInt) account := by
    intro account haccount
    rw [hafter account (t.ne_ledger haccount), python, hbalances _ t.to_mem, hbalances _ t.from_mem,
      hbalances _ haccount]
  rw [t.agrees_congr hpython]
  exact t.agrees_iff hcover

/-- Take 5 from account 1 and give it to an account. -/
def sample (toAcc : ℕ) (hto : toAcc ∈ ({1, 2} : Finset ℕ)) :
    SharedTransfer ({1, 2} : Finset ℕ) where
  fromAcc := 1
  toAcc := toAcc
  amount := 5
  ledger := 0
  from_mem := by decide
  to_mem := hto
  ledger_notMem := by decide
  amount_nonneg := by decide

/-- A transfer from account 1 to account 2. -/
def toOther : SharedTransfer ({1, 2} : Finset ℕ) := sample 2 (by decide)

/-- A transfer from account 1 to itself. -/
def toItself : SharedTransfer ({1, 2} : Finset ℕ) := sample 1 (by decide)

/-- One thread makes the transfer, up to the return of `commit`. -/
def sampleRun (steps : ℕ) : List (Action Unit Unit) :=
  .call () () :: List.replicate steps (.sched ())

/-- What comes before the only event of its kind. -/
theorem eq_takeWhile_of_countP {α : Type} {f : α → Bool} {l₁ l₂ : List α} {x : α}
    (hx : f x = true) (hcount : (l₁ ++ x :: l₂).countP f = 1) :
    l₁ = (l₁ ++ x :: l₂).takeWhile fun y => !f y := by
  rw [List.countP_append, List.countP_cons_of_pos hx] at hcount
  have hnone : l₁.countP f = 0 := by omega
  rw [List.countP_eq_zero] at hnone
  rw [List.takeWhile_append_of_pos]
  · simp [hx]
  · intro y hy
    simpa using hnone y hy

/-- Between two accounts with 10 each, the two agree. -/
theorem agrees_haskell_sample :
    ∃ (h : List (Event Unit ℕ ℤ String Unit)) (s' : State Unit ℕ ℤ String Unit),
      (commits h).length = 1 ∧
        toOther.Agrees (fun _ => 10) fun account => (s'.tvars account).value := by
  obtain ⟨h, s, txn, r, s', hreplay, hs, hcommits, hcount, hunchanged⟩ :
      ∃ h s txn r s', replay (step fun _ : Unit => toOther.body)
          (State.create (θ := Unit) fun _ => (10 : ℤ)) (sampleRun 23) = some (h, s) ∧
        step (fun _ => toOther.body) s (.sched ()) =
          some (.commit () () txn r, s') ∧
        (commits (h ++ [.commit () () txn r])).length = 1 ∧
        h.countP (fun x => (commitPoint x).isSome) = 1 ∧
        (h.takeWhile fun x => !(commitPoint x).isSome).foldl applyEvent (fun _ => ⟨10, 0⟩) =
          fun _ => ⟨10, 0⟩ :=
    ⟨_, _, _, _, _, rfl, rfl, rfl, rfl, rfl⟩
  have hquiet : (State.create (fun _ => (10 : ℤ)) : State Unit ℕ ℤ String Unit).Quiet :=
    ⟨fun _ => rfl, rfl⟩
  obtain ⟨h₁, s₁, h₂, hsplit, hr₁, -, hiff⟩ :=
    @agrees_haskell_iff Unit ℕ Unit _ _ _ toOther (fun _ => toOther.body) () rfl _ _ _ _ hquiet
      (run_of_replay _ _ hreplay) _ _ _ _ hs
  -- no write comes before the commit, so the balances are the initial ones
  have hbefore : h₁ = h.takeWhile fun x => !(commitPoint x).isSome := by
    rw [hsplit] at hcount ⊢
    exact eq_takeWhile_of_countP rfl hcount
  have htvars : s₁.tvars = fun _ => ⟨10, 0⟩ := by
    rw [run_tvars_eq hr₁, hbefore]
    exact hunchanged
  refine ⟨_, s', hcommits, (hiff (fun _ => 10) ?_ (by decide)).mpr (Or.inr (by decide))⟩
  intro account _
  rw [htvars]
  rfl

/-- Python's transfer of 5 from an account with 10 to the same account leaves it with 15. -/
theorem not_agrees_haskell :
    ¬ ∀ (t : SharedTransfer ({1, 2} : Finset ℕ)) (h : List (Event Unit ℕ ℤ String Unit)) s a i p
        txn r s', Run (step fun _ => t.body) anyStep (State.create fun _ => 10) h s →
      commits h = [] → step (fun _ => t.body) s a = some (.commit i p txn r, s') → t.amount ≤ 10 →
        t.Agrees (fun _ => 10) fun account => (s'.tvars account).value := by
  intro hall
  have hr := run_of_replay (step fun _ : Unit => toItself.body)
    (s := State.create fun _ => (10 : ℤ)) (sampleRun 19) rfl
  have hagrees := hall toItself _ _ (.sched ()) () () _ _ _ hr rfl rfl (by decide)
  have hsame : (15 : ℤ) = (toItself.haskell (fun _ => 10) 1).toInt :=
    hagrees.same 1 (by decide)
  rw [haskell, Haskell.safeTransfer_of_covered (by decide)] at hsame
  exact absurd hsame (by decide)

end SharedTransfer

end Stm
