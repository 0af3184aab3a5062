/-
# Bank transfers over the STM (`stm_bank_transfer`)

The abstract model is the plain ledger: a map of balances on which one transfer at a
time moves money if the source covers it and counts itself in its ledger entry
(`plainTransfer`).  Transfers read no TVar twice, so every interleaving of them is
serializable, and the serial machine's runs are runs of the plain ledger
(`run_plainTransfer`).  Conservation, non-negative balances and the ledger counts are
then invariants of the plain ledger (`run_bank`).
-/
import Mathlib.Algebra.BigOperators.Group.Finset.Basic
import Mathlib.Algebra.BigOperators.Group.Finset.Piecewise
import Mathlib.Algebra.Order.Group.Int
import Mathlib.Tactic.Ring
import Cocurrency.Stm.Serial

namespace Stm

/-! ## The code -/

/-- The body that `stm_bank_transfer` passes to `atomically`. -/
def stmBankTransfer {ι : Type} (fromAcc toAcc : ι) (amount : ℤ) (ledger : ι) :
    Body ι ℤ String :=
  .readTvar fromAcc fun fromBal =>
    .readTvar toAcc fun toBal =>
      if fromBal < amount then .retryFlag (.done "")
      else
        .writeTvar fromAcc (fromBal - amount) <|
          .writeTvar toAcc (toBal + amount) <|
            .readTvar ledger fun ledgerCount =>
              .writeTvar ledger (ledgerCount + 1) (.done s!"OK: transferred {amount}")

/-- A call of `stm_bank_transfer` between two different accounts, with a ledger that is
no account and an amount that is not negative. -/
structure Transfer {ι : Type} (accounts : Finset ι) where
  fromAcc : ι
  toAcc : ι
  amount : ℤ
  ledger : ι
  from_mem : fromAcc ∈ accounts
  to_mem : toAcc ∈ accounts
  from_ne_to : fromAcc ≠ toAcc
  ledger_notMem : ledger ∉ accounts
  amount_nonneg : 0 ≤ amount

namespace Transfer

variable {ι : Type} {accounts : Finset ι} (t : Transfer accounts)

/-- The transaction body of the call. -/
def body : Body ι ℤ String := stmBankTransfer t.fromAcc t.toAcc t.amount t.ledger

theorem ledger_ne_from : t.ledger ≠ t.fromAcc := fun h => t.ledger_notMem (h ▸ t.from_mem)

theorem ledger_ne_to : t.ledger ≠ t.toAcc := fun h => t.ledger_notMem (h ▸ t.to_mem)

theorem plain_body : t.body.Plain := by
  intro fromBal toBal
  split_ifs
  · trivial
  · intro ledgerCount
    trivial

/-- A transfer reads its three TVars once each. -/
theorem readOnce_body : t.body.ReadOnce fun _ => False := by
  refine ⟨id, fun fromBal => ⟨?_, fun toBal => ?_⟩⟩
  · rintro (h | h)
    · exact t.from_ne_to h.symm
    · exact h
  · split_ifs
    · trivial
    · refine ⟨?_, fun ledgerCount => trivial⟩
      rintro (h | h | h)
      · exact t.ledger_ne_to h
      · exact t.ledger_ne_from h
      · exact h

end Transfer

/-! ## The plain ledger -/

variable {ι : Type} [DecidableEq ι] {accounts : Finset ι}

/-- One transfer on a plain map of balances: refused if the source does not cover it. -/
def plainTransfer (balances : ι → ℤ) (t : Transfer accounts) :
    Option (Transfer accounts × (ι → ℤ)) :=
  if balances t.fromAcc < t.amount then none
  else
    some (t, fun a =>
      if a = t.ledger then balances a + 1
      else if a = t.toAcc then balances a + t.amount
      else if a = t.fromAcc then balances a - t.amount
      else balances a)

/-- What holds of a plain ledger after the transfers `ts`: the accounts sum to what they
summed to, none is negative, and every TVar that is no account has been counted up once
for each transfer that names it. -/
structure BankInv (accounts : Finset ι) (values : ι → ℤ) (ts : List (Transfer accounts))
    (balances : ι → ℤ) : Prop where
  sum_eq : ∑ a ∈ accounts, balances a = ∑ a ∈ accounts, values a
  nonneg : ∀ a ∈ accounts, 0 ≤ balances a
  count_eq : ∀ l, l ∉ accounts → balances l = values l + ts.countP fun t => t.ledger = l

/-- A transfer moves money, so the sum over the accounts stays. -/
theorem sum_plainTransfer (balances : ι → ℤ) (t : Transfer accounts) :
    (∑ a ∈ accounts,
      if a = t.ledger then balances a + 1
      else if a = t.toAcc then balances a + t.amount
      else if a = t.fromAcc then balances a - t.amount
      else balances a) = ∑ a ∈ accounts, balances a := by
  have hsplit : ∀ a ∈ accounts,
      (if a = t.ledger then balances a + 1
        else if a = t.toAcc then balances a + t.amount
        else if a = t.fromAcc then balances a - t.amount
        else balances a) =
      balances a + ((if a = t.toAcc then t.amount else 0) +
        if a = t.fromAcc then -t.amount else 0) := by
    intro a ha
    -- an account is no ledger; the amount arrives at one account and leaves another
    have hledger : a ≠ t.ledger := fun h => t.ledger_notMem (h ▸ ha)
    by_cases hto : a = t.toAcc
    · have hfrom : a ≠ t.fromAcc := fun h => t.from_ne_to (h.symm.trans hto)
      rw [if_neg hledger, if_pos hto, if_pos hto, if_neg hfrom, add_zero]
    · by_cases hfrom : a = t.fromAcc
      · rw [if_neg hledger, if_neg hto, if_pos hfrom, if_neg hto, if_pos hfrom, zero_add,
          sub_eq_add_neg]
      · rw [if_neg hledger, if_neg hto, if_neg hfrom, if_neg hto, if_neg hfrom, add_zero, add_zero]
  rw [Finset.sum_congr rfl hsplit, Finset.sum_add_distrib, Finset.sum_add_distrib,
    Finset.sum_ite_eq', Finset.sum_ite_eq', if_pos t.to_mem, if_pos t.from_mem]
  ring

theorem BankInv.plainTransfer {values balances balances' : ι → ℤ} {ts : List (Transfer accounts)}
    {t t' : Transfer accounts} (h : BankInv accounts values ts balances)
    (hs : plainTransfer balances t = some (t', balances')) :
    BankInv accounts values (ts ++ [t']) balances' := by
  rw [Stm.plainTransfer] at hs
  split_ifs at hs with hcover
  cases hs
  refine ⟨(sum_plainTransfer balances t).trans h.sum_eq, fun a ha => ?_, fun l hl => ?_⟩
  · have hledger : a ≠ t.ledger := fun heq => t.ledger_notMem (heq ▸ ha)
    have hnn := h.nonneg a ha
    have hamount := t.amount_nonneg
    rw [if_neg hledger]
    split_ifs with hto hfrom
    · omega
    · rw [hfrom]
      omega
    · exact hnn
  · have hto : l ≠ t.toAcc := fun heq => hl (heq ▸ t.to_mem)
    have hfrom : l ≠ t.fromAcc := fun heq => hl (heq ▸ t.from_mem)
    rw [if_neg hto, if_neg hfrom, h.count_eq l hl, List.countP_append, List.countP_singleton]
    by_cases hledger : l = t.ledger
    · rw [if_pos hledger, if_pos (by simpa using hledger.symm)]
      push_cast
      ring
    · rw [if_neg hledger, if_neg (by simpa using Ne.symm hledger)]
      simp

/-- The invariant of the plain ledger over a whole run. -/
theorem run_bankInv {values balances : ι → ℤ} {ts : List (Transfer accounts)}
    (hnn : ∀ a ∈ accounts, 0 ≤ values a)
    (hr : Run Stm.plainTransfer anyStep values ts balances) :
    BankInv accounts values ts balances := by
  refine Run.invariant (fun ts balances => BankInv accounts values ts balances) ?_ ?_ hr
  · exact ⟨rfl, hnn, fun l _ => by simp⟩
  · intro ts balances t t' balances' hinv _ hs
    exact hinv.plainTransfer hs

/-! ## The serial machine runs the plain ledger -/

/-- A transfer from a source that does not cover it signals retry. -/
theorem runAlone_refused (t : Transfer accounts) (store : ι → TVar ℤ)
    (hcover : (store t.fromAcc).value < t.amount) :
    (t.body.runAlone store).txn.shouldRetry = true := by
  have hto : (Transaction.init.readTvar t.fromAcc (store t.fromAcc)).2.writeSet.get t.toAcc =
      none := rfl
  rw [Body.runAlone, Transfer.body, stmBankTransfer, Body.exec_readTvar_of_not_written _ _ _ rfl,
    Body.exec_readTvar_of_not_written _ _ _ hto, if_pos hcover]
  rfl

/-- A transfer from a source that covers it writes the two balances, then the ledger. -/
theorem runAlone_covered (t : Transfer accounts) (store : ι → TVar ℤ)
    (hcover : ¬ (store t.fromAcc).value < t.amount) :
    (t.body.runAlone store).txn.writeSet.items =
      [(t.fromAcc, (store t.fromAcc).value - t.amount),
        (t.toAcc, (store t.toAcc).value + t.amount), (t.ledger, (store t.ledger).value + 1)] := by
  have hto : (Transaction.init.readTvar t.fromAcc (store t.fromAcc)).2.writeSet.get t.toAcc =
      none := rfl
  have hassign : ∀ fromBal toBal count : ℤ,
      EntryList.assign t.ledger count
        (EntryList.assign t.toAcc toBal (EntryList.assign t.fromAcc fromBal [])) =
      [(t.fromAcc, fromBal), (t.toAcc, toBal), (t.ledger, count)] := by
    intro fromBal toBal count
    simp [EntryList.assign, t.from_ne_to, t.ledger_ne_from.symm, t.ledger_ne_to.symm]
  rw [Body.runAlone, Transfer.body, stmBankTransfer, Body.exec_readTvar_of_not_written _ _ _ rfl,
    Body.exec_readTvar_of_not_written _ _ _ hto, if_neg hcover, Body.exec, Body.exec,
    Body.exec_readTvar_of_not_written _ _ _ ?_]
  · show EntryList.assign t.ledger _ (Transaction.readTvar _ t.ledger _).2.writeSet.items = _
    rw [Transaction.writeSet_readTvar]
    exact hassign _ _ _
  · rw [Transaction.writeTvar, Transaction.writeTvar, Dict.get_set_of_ne _ _ t.ledger_ne_to,
      Dict.get_set_of_ne _ _ t.ledger_ne_from]
    rfl

/-- A step of the serial machine with a transfer is a step of the plain ledger. -/
theorem plainTransfer_of_runSerially {t : Transfer accounts} {store store' : ι → TVar ℤ}
    {c : Commit ι ℤ String (Transfer accounts)}
    (h : runSerially Transfer.body store t = some (c, store')) :
    plainTransfer (fun a => (store a).value) t = some (c.p, fun a => (store' a).value) := by
  have hrefused := runAlone_refused t store
  have hcovered := runAlone_covered t store
  rw [runSerially] at h
  split at h
  · next r txn rs halone =>
    rw [halone] at hrefused hcovered
    split_ifs at h with hflag
    cases h
    have hcover : ¬ (store t.fromAcc).value < t.amount := fun hlt => hflag (hrefused hlt)
    rw [plainTransfer, if_neg hcover, hcovered hcover]
    congr 2
    funext a
    have hto := t.from_ne_to.symm
    simp only [installWrites, installWrite, List.foldl_cons, List.foldl_nil, Function.update_apply]
    split_ifs <;> simp_all
  · cases h

/-- Histories of the serial machine are histories of the plain ledger. -/
theorem run_plainTransfer {values : ι → ℤ} {cs : List (Commit ι ℤ String (Transfer accounts))}
    {store : ι → TVar ℤ}
    (hr : Run (runSerially Transfer.body) anyStep (fun tid => ⟨values tid, 0⟩) cs store) :
    Run plainTransfer anyStep values (cs.map Commit.p) fun a => (store a).value := by
  have hsim : ∃ balances : ι → ℤ, Run plainTransfer anyStep values
      (cs.filterMap fun c => some c.p) balances ∧ balances = fun a => (store a).value := by
    refine Run.simulate (fun c => some c.p)
      (fun _ store balances => balances = fun a => (store a).value) values rfl ?_ ?_ hr
    · intro _ _ _ _ _ _ _ _ _ _ hobs
      cases hobs
    · intro _ store t c store' balances o _ hrel _ hs hobs
      cases hobs
      subst hrel
      exact ⟨t, _, plainTransfer_of_runSerially hs, rfl⟩
  obtain ⟨balances, hrun, hrel⟩ := hsim
  rw [List.filterMap_eq_map'] at hrun
  rw [← hrel]
  exact hrun

variable {θ : Type} [DecidableEq θ]

/-- **The bank.**  Whatever the number of threads and the interleaving of transfers: when
no thread is inside the write loop of `commit`, the accounts sum to their initial sum,
none is negative, and a ledger has been counted up once for each committed transfer that
names it. -/
theorem run_bank {values : ι → ℤ} (hnn : ∀ a ∈ accounts, 0 ≤ values a)
    {h : List (Event θ ι ℤ String (Transfer accounts))}
    {s : State θ ι ℤ String (Transfer accounts)}
    (hr : Run (step Transfer.body) anyStep (State.create values) h s)
    (hout : ∀ i, (s.phase i).isWriting = false) :
    BankInv accounts values ((commits h).map Commit.p) fun a => (s.tvars a).value := by
  obtain ⟨store, hrun, hst⟩ := serializable_of_freshRead Transfer.plain_body
    (run_freshRead_of_readOnce Transfer.readOnce_body hr)
  rw [hst.1 hout]
  exact run_bankInv hnn (run_plainTransfer hrun)

/-- Move 3 from account 0 to account 1, counted in TVar 2. -/
def sampleTransfer : Transfer ({0, 1} : Finset ℕ) where
  fromAcc := 0
  toAcc := 1
  amount := 3
  ledger := 2
  from_mem := by decide
  to_mem := by decide
  from_ne_to := by decide
  ledger_notMem := by decide
  amount_nonneg := by decide

/-- Two threads make that transfer, the second one reading the source before the first
commits. -/
def sampleSchedule : List (Action Bool (Transfer ({0, 1} : Finset ℕ))) :=
  [.call false sampleTransfer, .call true sampleTransfer, .sched true] ++
    List.replicate 25 (.sched false) ++ List.replicate 31 (.sched true)

theorem run_bank_sample :
    ∃ (h : List (Event Bool ℕ ℤ String (Transfer ({0, 1} : Finset ℕ)))) (balances : ℕ → ℤ),
      (commits h).length = 2 ∧ (h.filter Event.givesUp).length = 1 ∧ balances 0 = 4 ∧
      BankInv {0, 1} (fun a => if a = 0 then 10 else 0) ((commits h).map Commit.p) balances := by
  have hr := run_of_replay (step Transfer.body)
    (s := State.create fun a => if a = 0 then (10 : ℤ) else 0) sampleSchedule rfl
  have hnn : ∀ a ∈ ({0, 1} : Finset ℕ), (0 : ℤ) ≤ if a = 0 then 10 else 0 := by decide
  exact ⟨_, _, rfl, rfl, rfl, run_bank hnn hr (by rintro (_ | _) <;> rfl)⟩

end Stm
