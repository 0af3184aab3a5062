/-
# `BankSTM` (`java/stm/BankSTM.java`)

`transfer` names the two accounts `first` and `second` in the order of their ids, and maps the
balances back in each of its two branches.  If `from` comes first it moves the amount.  If `to`
comes first, `fBal` is the balance of `to`, and the branch writes each of the two new balances
over the wrong old one.

* `run_of_lt`, `run_of_compareTo`, `run_of_not_compareTo` : what a call does in each case;
* `run_correct_iff` : a sequence of calls, one after another, does what the plain ledger does if and
  only if each of them finds too little money, or has `from` first, or equal balances.
-/
import Cocurrency.Lib.FixedWidth
import Cocurrency.Lib.Utf16
import Mathlib.Algebra.Ring.Int.Defs
import Mathlib.Data.Int.Notation
import Mathlib.Data.Nat.Notation
import Mathlib.Logic.Function.Basic
import Mathlib.Tactic.SplitIfs

namespace Stm

namespace BankSTM

open Utf16 (compareTo)

/-! ## Accounts -/

/-- An account; its lock is held by no one between two calls. -/
structure Account where
  id : String
  balance : Int64
  version : Int64

/-- `TransferResult`. -/
structure TransferResult where
  success : Bool
  message : String

section Store

variable {ι : Type*} [DecidableEq ι]

/-- The balance of an account is set. -/
def setBalance (s : ι → Account) (account : ι) (b : Int64) : ι → Account :=
  Function.update s account { s account with balance := b }

/-- `incVersion`. -/
def incVersion (s : ι → Account) (account : ι) : ι → Account :=
  Function.update s account { s account with version := (s account).version + 1 }

/-- What the two `synchronized` blocks have read. -/
structure Snapshot where
  vFrom : Int64
  balFrom : Int64
  vTo : Int64
  balTo : Int64

/-- Phase 1. -/
def snapshot (s : ι → Account) (first second : ι) : Snapshot where
  vFrom := (s first).version
  balFrom := (s first).balance
  vTo := (s second).version
  balTo := (s second).balance

/-- Phases 2 and 3, unless the validation fails. -/
def commit (s : ι → Account) (snap : Snapshot) (fromAcc first second : ι) (amount : Int64) :
    Option (ι → Account) :=
  let cvFrom := (s first).version
  let cvTo := (s second).version
  if cvFrom = snap.vFrom ∧ cvTo = snap.vTo then
    let fBal := (s first).balance
    let sBal := (s second).balance
    let moved :=
      if first = fromAcc then
        setBalance (setBalance s first (fBal - amount)) second (sBal + amount)
      else
        setBalance (setBalance s second (fBal - amount)) first (sBal + amount)
    some (incVersion (incVersion moved first) second)
  else none

/-- The loop over the attempts; no other thread writes between the phases. -/
def attempts (s : ι → Account) (fromAcc toAcc : ι) (amount : Int64) (first second : ι) :
    ℕ → TransferResult × (ι → Account)
  | 0 => (⟨false, "Max retries exceeded (too much contention)"⟩, s)
  | retries + 1 =>
      let snap := snapshot s first second
      let actualFrom := if first = fromAcc then snap.balFrom else snap.balTo
      let fromId := (s fromAcc).id
      let toId := (s toAcc).id
      if actualFrom < amount then (⟨false, s!"Insufficient funds in {fromId}"⟩, s)
      else
        match commit s snap fromAcc first second amount with
        | some s' => (⟨true, s!"Transferred {amount} from {fromId} to {toId}"⟩, s')
        | none => attempts s fromAcc toAcc amount first second retries

/-- How often `transfer` tries. -/
def maxRetries : ℕ := 100

/-- The account whose lock is acquired first, and the other one. -/
def lockOrder (s : ι → Account) (fromAcc toAcc : ι) : ι × ι :=
  if compareTo (s fromAcc).id (s toAcc).id < 0 then (fromAcc, toAcc) else (toAcc, fromAcc)

/-- `transfer`. -/
def transfer (s : ι → Account) (fromAcc toAcc : ι) (amount : Int64) :
    TransferResult × (ι → Account) :=
  attempts s fromAcc toAcc amount (lockOrder s fromAcc toAcc).1 (lockOrder s fromAcc toAcc).2
    maxRetries

end Store

/-! ## Calls -/

/-- A call of `transfer`, between different accounts and of no negative amount. -/
structure Call (ι : Type*) where
  fromAcc : ι
  toAcc : ι
  amount : Int64
  ne : fromAcc ≠ toAcc
  nonneg : 0 ≤ amount.toInt

section Calls

variable {ι : Type*} [DecidableEq ι]

/-- The call of `transfer`. -/
def Call.run (c : Call ι) (s : ι → Account) : TransferResult × (ι → Account) :=
  transfer s c.fromAcc c.toAcc c.amount

/-- Calls one after another: the accounts afterwards. -/
def runCalls (s : ι → Account) (calls : List (Call ι)) : ι → Account :=
  calls.foldl (fun s c => (c.run s).2) s

/-! ## The plain ledger -/

/-- A transfer on a map from accounts to amounts. -/
def Call.onLedger (c : Call ι) (ledger : ι → ℤ) : ι → ℤ :=
  if c.amount.toInt ≤ ledger c.fromAcc then
    Function.update
      (Function.update ledger c.fromAcc (ledger c.fromAcc - c.amount.toInt))
      c.toAcc (ledger c.toAcc + c.amount.toInt)
  else ledger

/-- The calls on the ledger. -/
def runLedger (ledger : ι → ℤ) (calls : List (Call ι)) : ι → ℤ :=
  calls.foldl (fun ledger c => c.onLedger ledger) ledger

/-- The balances as numbers. -/
def balances (s : ι → Account) : ι → ℤ := fun account => (s account).balance.toInt

/-- No credit overflows a `long`. -/
def NoOverflow : (ι → ℤ) → List (Call ι) → Prop
  | _, [] => True
  | ledger, c :: calls =>
      (c.amount.toInt ≤ ledger c.fromAcc → ledger c.toAcc + c.amount.toInt < 2 ^ 63) ∧
        NoOverflow (c.onLedger ledger) calls

instance decidableNoOverflow : ∀ (ledger : ι → ℤ) (calls : List (Call ι)),
    Decidable (NoOverflow ledger calls)
  | _, [] => isTrue trivial
  | ledger, c :: calls =>
      have := decidableNoOverflow (c.onLedger ledger) calls
      inferInstanceAs (Decidable (_ ∧ _))

/-- What a transfer is to do. -/
structure Transfers (s : ι → Account) (c : Call ι) (result : TransferResult) (s' : ι → Account) :
    Prop where
  success_iff : result.success = true ↔ c.amount.toInt ≤ balances s c.fromAcc
  debited : result.success = true →
    balances s' c.fromAcc = balances s c.fromAcc - c.amount.toInt
  credited : result.success = true → balances s' c.toAcc = balances s c.toAcc + c.amount.toInt
  versions : result.success = true → (s' c.fromAcc).version = (s c.fromAcc).version + 1 ∧
    (s' c.toAcc).version = (s c.toAcc).version + 1
  unchanged : result.success = false → s' = s
  others : ∀ account, account ≠ c.fromAcc → account ≠ c.toAcc → s' account = s account

/-- Every call of the sequence does what it is to do, and no balance is negative before or after
it. -/
def AllTransfer : (ι → Account) → List (Call ι) → Prop
  | s, [] => ∀ account, 0 ≤ balances s account
  | s, c :: calls => (∀ account, 0 ≤ balances s account) ∧
      Transfers s c (c.run s).1 (c.run s).2 ∧ AllTransfer (c.run s).2 calls

/-- The calls do what the plain ledger does. -/
def Correct (s : ι → Account) (calls : List (Call ι)) : Prop :=
  AllTransfer s calls ∧ balances (runCalls s calls) = runLedger (balances s) calls

/-- Each call has too little money to move, or names the account first whose lock comes first, or
finds equal balances. -/
def Harmless (id : ι → String) : (ι → ℤ) → List (Call ι) → Prop
  | _, [] => True
  | ledger, c :: calls =>
      (ledger c.fromAcc < c.amount.toInt ∨ compareTo (id c.fromAcc) (id c.toAcc) < 0 ∨
        ledger c.fromAcc = ledger c.toAcc) ∧
      Harmless id (c.onLedger ledger) calls

instance decidableHarmless (id : ι → String) : ∀ (ledger : ι → ℤ) (calls : List (Call ι)),
    Decidable (Harmless id ledger calls)
  | _, [] => isTrue trivial
  | ledger, c :: calls =>
      have := decidableHarmless id (c.onLedger ledger) calls
      inferInstanceAs (Decidable (_ ∧ _))

/-! ## What a call does -/

/-- The accounts after a transfer that has written two balances. -/
def moved (s : ι → Account) (c : Call ι) (debited credited : Int64) : ι → Account :=
  fun account =>
    if account = c.fromAcc then ⟨(s c.fromAcc).id, debited, (s c.fromAcc).version + 1⟩
    else if account = c.toAcc then ⟨(s c.toAcc).id, credited, (s c.toAcc).version + 1⟩
    else s account

variable (s : ι → Account) (c : Call ι)

/-- The two writes and the two new versions, in whatever order they are made. -/
theorem incVersion_setBalance {x y : ι} (hne : x ≠ y) (a b : Int64) :
    incVersion (incVersion (setBalance (setBalance s x a) y b) x) y =
      fun account =>
        if account = x then ⟨(s x).id, a, (s x).version + 1⟩
        else if account = y then ⟨(s y).id, b, (s y).version + 1⟩
        else s account := by
  funext account
  by_cases hx : account = x
  · rw [hx]
    simp [incVersion, setBalance, Function.update, hne]
  · by_cases hy : account = y
    · rw [hy]
      simp [incVersion, setBalance, Function.update, hne.symm]
    · simp [incVersion, setBalance, Function.update, hx, hy]

theorem setBalance_comm {x y : ι} (hne : x ≠ y) (a b : Int64) :
    setBalance (setBalance s y b) x a = setBalance (setBalance s x a) y b := by
  funext account
  by_cases hx : account = x
  · rw [hx]
    simp [setBalance, Function.update, hne]
  · by_cases hy : account = y
    · rw [hy]
      simp [setBalance, Function.update, hne.symm]
    · simp [setBalance, Function.update, hx, hy]

/-- The validation cannot fail. -/
theorem commit_snapshot (fromAcc first second : ι) (amount : Int64) :
    commit s (snapshot s first second) fromAcc first second amount =
      some (incVersion (incVersion
        (if first = fromAcc then
          setBalance (setBalance s first ((s first).balance - amount)) second
            ((s second).balance + amount)
        else
          setBalance (setBalance s second ((s first).balance - amount)) first
            ((s second).balance + amount)) first) second) := by
  simp [commit, snapshot]

/-- Too little money: nothing changes. -/
theorem run_of_lt (h : (s c.fromAcc).balance < c.amount) :
    (c.run s).1.success = false ∧ (c.run s).2 = s := by
  have hne := c.ne.symm
  rw [Call.run, transfer, maxRetries, attempts]
  by_cases hid : compareTo (s c.fromAcc).id (s c.toAcc).id < 0
  · simp [lockOrder, hid, snapshot, h]
  · simp [lockOrder, hid, snapshot, h, hne]

/-- The lock of `from` comes first: the amount is moved. -/
theorem run_of_compareTo (h : ¬ (s c.fromAcc).balance < c.amount)
    (hid : compareTo (s c.fromAcc).id (s c.toAcc).id < 0) :
    (c.run s).1.success = true ∧ (c.run s).2 =
      moved s c ((s c.fromAcc).balance - c.amount) ((s c.toAcc).balance + c.amount) := by
  rw [Call.run, transfer, maxRetries, attempts]
  simp only [lockOrder, if_pos hid, commit_snapshot, if_true, incVersion_setBalance s c.ne]
  simp [snapshot, h]
  rfl

/-- The lock of `to` comes first: each balance is computed from that of the other account. -/
theorem run_of_not_compareTo (h : ¬ (s c.fromAcc).balance < c.amount)
    (hid : ¬ compareTo (s c.fromAcc).id (s c.toAcc).id < 0) :
    (c.run s).1.success = true ∧ (c.run s).2 =
      moved s c ((s c.toAcc).balance - c.amount) ((s c.fromAcc).balance + c.amount) := by
  have hne := c.ne.symm
  rw [Call.run, transfer, maxRetries, attempts]
  -- the writes to `from` and `to` come in the other order
  simp only [lockOrder, if_neg hid, commit_snapshot, if_neg hne,
    setBalance_comm s c.ne.symm, incVersion_setBalance s c.ne.symm]
  simp [snapshot, h]
  funext account
  by_cases hfrom : account = c.fromAcc
  · simp [moved, hfrom, c.ne]
  · simp [moved, hfrom]

/-! ## When a call does what the ledger does -/

variable {s c}

theorem transfers_of_lt (h : balances s c.fromAcc < c.amount.toInt) :
    Transfers s c (c.run s).1 (c.run s).2 ∧ balances (c.run s).2 = c.onLedger (balances s) := by
  obtain ⟨hfailed, hsame⟩ := run_of_lt s c (Int64.lt_iff_toInt_lt.mpr h)
  rw [hsame, Call.onLedger, if_neg (by omega)]
  refine ⟨⟨?_, ?_, ?_, ?_, fun _ => rfl, fun _ _ _ => rfl⟩, rfl⟩
  · rw [hfailed]
    exact iff_of_false Bool.noConfusion (by omega)
  all_goals
    rw [hfailed]
    exact fun h => Bool.noConfusion h

/-- The new balances of the code, in terms of the two that it subtracts from and adds to. -/
theorem transfers_moved {a b : Int64} (hle : c.amount.toInt ≤ balances s c.fromAcc)
    (hrun : (c.run s).1.success = true ∧ (c.run s).2 = moved s c a b)
    (ha : a.toInt = balances s c.fromAcc - c.amount.toInt)
    (hb : b.toInt = balances s c.toAcc + c.amount.toInt) :
    Transfers s c (c.run s).1 (c.run s).2 ∧
      balances (c.run s).2 = c.onLedger (balances s) := by
  have hne := c.ne.symm
  rw [hrun.2]
  constructor
  · constructor
    · exact iff_of_true hrun.1 hle
    · intro _
      simpa [balances, moved] using ha
    · intro _
      simpa [balances, moved, hne] using hb
    · intro _
      simp [moved, hne]
    · intro hfalse
      rw [hrun.1] at hfalse
      cases hfalse
    · intro account hfrom hto
      simp [moved, hfrom, hto]
  · funext account
    rw [Call.onLedger, if_pos hle]
    by_cases hto : account = c.toAcc
    · rw [hto, Function.update_self]
      simpa [balances, moved, hne] using hb
    · rw [Function.update_of_ne hto]
      by_cases hfrom : account = c.fromAcc
      · rw [hfrom, Function.update_self]
        simpa [balances, moved] using ha
      · rw [Function.update_of_ne hfrom]
        simp [balances, moved, hfrom, hto]

omit [DecidableEq ι] in
theorem not_lt_of_le (hle : c.amount.toInt ≤ balances s c.fromAcc) :
    ¬ (s c.fromAcc).balance < c.amount := by
  rw [Int64.lt_iff_toInt_lt]
  exact Int.not_lt.mpr hle

theorem transfers_of_compareTo (hle : c.amount.toInt ≤ balances s c.fromAcc)
    (hno : balances s c.toAcc + c.amount.toInt < 2 ^ 63)
    (hid : compareTo (s c.fromAcc).id (s c.toAcc).id < 0) :
    Transfers s c (c.run s).1 (c.run s).2 ∧ balances (c.run s).2 = c.onLedger (balances s) :=
  transfers_moved hle (run_of_compareTo s c (not_lt_of_le hle) hid)
    (FixedWidth.toInt_sub c.nonneg hle) ((FixedWidth.toInt_add_eq_iff c.nonneg).mpr hno)

/-- With the lock of `to` first, the amount is moved between equal balances only. -/
theorem transfers_of_not_compareTo (hle : c.amount.toInt ≤ balances s c.fromAcc)
    (hno : balances s c.toAcc + c.amount.toInt < 2 ^ 63)
    (hid : ¬ compareTo (s c.fromAcc).id (s c.toAcc).id < 0) :
    (Transfers s c (c.run s).1 (c.run s).2 ↔ balances s c.fromAcc = balances s c.toAcc) ∧
      (balances s c.fromAcc = balances s c.toAcc →
        balances (c.run s).2 = c.onLedger (balances s)) := by
  have hrun := run_of_not_compareTo s c (not_lt_of_le hle) hid
  have hgood : balances s c.fromAcc = balances s c.toAcc →
      Transfers s c (c.run s).1 (c.run s).2 ∧
        balances (c.run s).2 = c.onLedger (balances s) := by
    intro heq
    have hle' : c.amount.toInt ≤ balances s c.toAcc := heq ▸ hle
    refine transfers_moved hle hrun ?_ ?_
    · rw [FixedWidth.toInt_sub c.nonneg hle', heq]
      rfl
    · rw [← heq] at hno ⊢
      exact (FixedWidth.toInt_add_eq_iff c.nonneg).mpr hno
  refine ⟨⟨fun htransfers => ?_, fun heq => (hgood heq).1⟩, fun heq => (hgood heq).2⟩
  -- the account that is debited is left with the balance of the other one, less the amount
  have hdebited := htransfers.debited hrun.1
  have hnow : balances (c.run s).2 c.fromAcc = ((s c.toAcc).balance - c.amount).toInt := by
    rw [hrun.2]
    simp [balances, moved]
  have hwanted : balances s c.fromAcc - c.amount.toInt =
      ((s c.fromAcc).balance - c.amount).toInt := (FixedWidth.toInt_sub c.nonneg hle).symm
  rw [hnow, hwanted, Int64.toInt_inj, Int64.sub_left_inj] at hdebited
  exact congrArg Int64.toInt hdebited.symm

/-- **One call.**  It does what it is to do exactly when it has too little money, or `from` comes
first, or the balances are equal; and then it does what the ledger does. -/
theorem transfers_iff (hno : c.amount.toInt ≤ balances s c.fromAcc →
      balances s c.toAcc + c.amount.toInt < 2 ^ 63) :
    (Transfers s c (c.run s).1 (c.run s).2 ↔
        (balances s c.fromAcc < c.amount.toInt ∨
          compareTo (s c.fromAcc).id (s c.toAcc).id < 0 ∨
          balances s c.fromAcc = balances s c.toAcc)) ∧
      (Transfers s c (c.run s).1 (c.run s).2 →
        balances (c.run s).2 = c.onLedger (balances s)) := by
  by_cases hlt : balances s c.fromAcc < c.amount.toInt
  · have h := transfers_of_lt hlt
    exact ⟨iff_of_true h.1 (Or.inl hlt), fun _ => h.2⟩
  · have hle : c.amount.toInt ≤ balances s c.fromAcc := by omega
    by_cases hid : compareTo (s c.fromAcc).id (s c.toAcc).id < 0
    · have h := transfers_of_compareTo hle (hno hle) hid
      exact ⟨iff_of_true h.1 (Or.inr (Or.inl hid)), fun _ => h.2⟩
    · obtain ⟨hiff, hledger⟩ := transfers_of_not_compareTo hle (hno hle) hid
      refine ⟨?_, fun h => hledger (hiff.mp h)⟩
      rw [hiff, or_iff_right hlt, or_iff_right hid]

/-! ## Sequences of calls -/

theorem id_run (s : ι → Account) (c : Call ι) (account : ι) :
    ((c.run s).2 account).id = (s account).id := by
  have hmoved : ∀ a b : Int64, (moved s c a b account).id = (s account).id := by
    intro a b
    rw [moved]
    split_ifs with hfrom hto
    · rw [hfrom]
    · rw [hto]
    · rfl
  by_cases hlt : (s c.fromAcc).balance < c.amount
  · rw [(run_of_lt s c hlt).2]
  · by_cases hid : compareTo (s c.fromAcc).id (s c.toAcc).id < 0
    · rw [(run_of_compareTo s c hlt hid).2, hmoved]
    · rw [(run_of_not_compareTo s c hlt hid).2, hmoved]

/-- The ledger keeps its balances nonnegative. -/
theorem onLedger_nonneg {ledger : ι → ℤ} (c : Call ι) (h : ∀ account, 0 ≤ ledger account) :
    ∀ account, 0 ≤ c.onLedger ledger account := by
  intro account
  have hnonneg := c.nonneg
  have hto := h c.toAcc
  rw [Call.onLedger]
  split_ifs with hle
  · by_cases hx : account = c.toAcc
    · rw [hx, Function.update_self]
      omega
    · rw [Function.update_of_ne hx]
      by_cases hy : account = c.fromAcc
      · rw [hy, Function.update_self]
        omega
      · rw [Function.update_of_ne hy]
        exact h account
  · exact h account

/-- **Transfers one after another.**  A sequence of calls without overflow does what the plain
ledger does, each call of it, if and only if each call finds too little money, or has `from`
first in the order of the locks, or equal balances. -/
theorem run_correct_iff (s : ι → Account) (calls : List (Call ι))
    (hnonneg : ∀ account, 0 ≤ balances s account) (hno : NoOverflow (balances s) calls) :
    Correct s calls ↔ Harmless (fun account => (s account).id) (balances s) calls := by
  induction calls generalizing s with
  | nil => exact iff_of_true ⟨hnonneg, rfl⟩ trivial
  | cons c calls ih =>
      obtain ⟨hiff, hledger⟩ := transfers_iff hno.1
      have hids : (fun account => ((c.run s).2 account).id) = fun account => (s account).id :=
        funext (id_run s c)
      -- once the call has done what it is to do, the rest starts from the ledger's balances
      have hrest : Transfers s c (c.run s).1 (c.run s).2 →
          (Correct (c.run s).2 calls ↔
            Harmless (fun account => (s account).id) (c.onLedger (balances s)) calls) := by
        intro h
        have heq := hledger h
        have hnonneg' : ∀ account, 0 ≤ balances (c.run s).2 account := by
          rw [heq]
          exact onLedger_nonneg c hnonneg
        rw [ih (c.run s).2 hnonneg' (by rw [heq]; exact hno.2), hids, heq]
      constructor
      · rintro ⟨⟨-, htransfers, hall⟩, hfinal⟩
        refine ⟨hiff.mp htransfers, (hrest htransfers).mp ⟨hall, ?_⟩⟩
        rw [hledger htransfers]
        exact hfinal
      · rintro ⟨hharmless, hall⟩
        have htransfers := hiff.mpr hharmless
        obtain ⟨hall', hfinal⟩ := (hrest htransfers).mpr hall
        refine ⟨⟨hnonneg, htransfers, hall'⟩, ?_⟩
        rw [hledger htransfers] at hfinal
        exact hfinal

/-- Alice and Bob of the demo. -/
def demo : Bool → Account
  | true => ⟨"Alice", 1000, 0⟩
  | false => ⟨"Bob", 500, 0⟩

/-- Alice pays Bob, as in the demo, and more than she has. -/
theorem run_correct_iff_demo :
    Correct demo [⟨true, false, 30, by decide, by decide⟩, ⟨true, false, 2000, by decide,
      by decide⟩] :=
  (run_correct_iff demo _ (by decide) (by decide)).mpr (by decide)

/-- Bob pays Alice 10, and has 990 afterwards; Alice is left with 510. -/
theorem not_correct : ¬ ∀ (s : Bool → Account) (calls : List (Call Bool)),
    (Function.Injective fun account => (s account).id) → (∀ account, 0 ≤ balances s account) →
      NoOverflow (balances s) calls → Correct s calls := by
  intro hall
  have hids : ∀ a b : Bool, (demo a).id = (demo b).id → a = b := by decide
  have hcorrect := hall demo [⟨false, true, 10, by decide, by decide⟩] hids (by decide)
    (by decide)
  have hbalance := congrFun hcorrect.2 false
  revert hbalance
  decide

end Calls

end BankSTM

end Stm
