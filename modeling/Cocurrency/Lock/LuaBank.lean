/-
# Accounts with flags for locks (`lua/shared_memory/bank_account.lua`)

`deposit`, `withdraw` and `transfer` on accounts that are identified by their ids.  `transfer` puts
its two accounts into the order of their ids, for the locks, and goes on with `first` and `second`
instead of the source and the target: it asks whether `first` covers the amount, and debits it.

Balances and amounts are integers, which have 64 bits and wrap around; the lines with `%d` that the
functions print between an update and the unlocking raise an error for no integer, and are left out.

A sequence of calls is compared with the plain ledger.  They agree just if no credit overflows, and
the source of each transfer has the smaller id, or the plain ledger stands so that it makes no
difference (`calls_agree_iff`).
-/
import Cocurrency.Lib.FixedWidth
import Cocurrency.Lib.Machine
import Mathlib.Data.Int.Notation
import Mathlib.Logic.Function.Basic
import Mathlib.Order.Lattice

namespace Lock.Lua

/-- `balance` and `locked` of each account. -/
@[ext] structure Accounts (ι : Type*) where
  balance : ι → Int64
  locked : ι → Bool

/-- An amount, which is not negative. -/
structure Amount where
  value : Int64
  nonneg : 0 ≤ value.toInt

/-- The calls; a transfer is between two accounts. -/
inductive Call (ι : Type*) where
  | deposit (acc : ι) (amount : Amount)
  | withdraw (acc : ι) (amount : Amount)
  | transfer (fromAcc toAcc : ι) (hne : fromAcc ≠ toAcc) (amount : Amount)

/-! ## The code -/

section Code

variable {ι : Type*} [DecidableEq ι]

namespace Accounts

/-- `acc.balance = balance`. -/
def setBalance (accs : Accounts ι) (acc : ι) (balance : Int64) : Accounts ι :=
  { accs with balance := Function.update accs.balance acc balance }

/-- `acc.locked = locked`. -/
def setLocked (accs : Accounts ι) (acc : ι) (locked : Bool) : Accounts ι :=
  { accs with locked := Function.update accs.locked acc locked }

end Accounts

/-- `deposit`: what it returns, and the accounts; `none` if it yields, waiting for the lock. -/
def deposit (accs : Accounts ι) (acc : ι) (amount : Int64) : Option (Bool × Accounts ι) :=
  if accs.locked acc then none
  else
    let accs := accs.setLocked acc true
    let accs := accs.setBalance acc (accs.balance acc + amount)
    let accs := accs.setLocked acc false
    some (true, accs)

/-- `withdraw`. -/
def withdraw (accs : Accounts ι) (acc : ι) (amount : Int64) : Option (Bool × Accounts ι) :=
  if accs.locked acc then none
  else
    let accs := accs.setLocked acc true
    if accs.balance acc ≥ amount then
      let accs := accs.setBalance acc (accs.balance acc - amount)
      let accs := accs.setLocked acc false
      some (true, accs)
    else
      let accs := accs.setLocked acc false
      some (false, accs)

/-- `transfer`, once its accounts are in order. -/
def transferInOrder (accs : Accounts ι) (first second : ι) (amount : Int64) :
    Option (Bool × Accounts ι) :=
  if accs.locked first || accs.locked second then none
  else
    let accs := accs.setLocked first true
    let accs := accs.setLocked second true
    if accs.balance first ≥ amount then
      let accs := accs.setBalance first (accs.balance first - amount)
      let accs := accs.setBalance second (accs.balance second + amount)
      let accs := accs.setLocked first false
      let accs := accs.setLocked second false
      some (true, accs)
    else
      let accs := accs.setLocked first false
      let accs := accs.setLocked second false
      some (false, accs)

end Code

variable {ι : Type*} [LinearOrder ι]

/-- `transfer`. -/
def transfer (accs : Accounts ι) (fromAcc toAcc : ι) (amount : Int64) :
    Option (Bool × Accounts ι) :=
  if fromAcc < toAcc then transferInOrder accs fromAcc toAcc amount
  else transferInOrder accs toAcc fromAcc amount

/-- A call. -/
def Call.run (accs : Accounts ι) : Call ι → Option (Bool × Accounts ι)
  | .deposit acc amount => Lua.deposit accs acc amount.value
  | .withdraw acc amount => Lua.withdraw accs acc amount.value
  | .transfer fromAcc toAcc _ amount => Lua.transfer accs fromAcc toAcc amount.value

/-- Balances as integers. -/
def toInts (balance : ι → Int64) : ι → ℤ := fun a => (balance a).toInt

/-- What can be seen of the accounts: the balances and the flags. -/
def Accounts.view (accs : Accounts ι) : (ι → ℤ) × (ι → Bool) := (toInts accs.balance, accs.locked)

/-- One call after the other: what each returned, with the accounts after it.  Nobody unlocks an
account that a call waits for. -/
def luaStep (accs : Accounts ι) (call : Call ι) :
    Option (Bool × (ι → ℤ) × (ι → Bool)) × Accounts ι :=
  ((call.run accs).map (Prod.map id Accounts.view), ((call.run accs).map Prod.snd).getD accs)

/-! ## The plain ledger -/

/-- Put an amount into an account, or take it out. -/
def add (balance : ι → ℤ) (acc : ι) (amount : ℤ) : ι → ℤ :=
  fun a => if a = acc then balance a + amount else balance a

/-- Move an amount from one account to another. -/
def move (balance : ι → ℤ) (fromAcc toAcc : ι) (amount : ℤ) : ι → ℤ :=
  fun a => if a = fromAcc then balance a - amount else if a = toAcc then balance a + amount
    else balance a

/-- What a call does to the plain ledger, and what it returns. -/
def Call.post (balance : ι → ℤ) : Call ι → Bool × (ι → ℤ)
  | .deposit acc amount => (true, add balance acc amount.value.toInt)
  | .withdraw acc amount =>
      if amount.value.toInt ≤ balance acc then (true, add balance acc (-amount.value.toInt))
      else (false, balance)
  | .transfer fromAcc toAcc _ amount =>
      if amount.value.toInt ≤ balance fromAcc then
        (true, move balance fromAcc toAcc amount.value.toInt)
      else (false, balance)

/-- What the calls should return, and leave: all accounts unlocked. -/
def ledgerStep (balance : ι → ℤ) (call : Call ι) :
    Option (Bool × (ι → ℤ) × (ι → Bool)) × (ι → ℤ) :=
  (some ((call.post balance).1, (call.post balance).2, fun _ => false), (call.post balance).2)

/-- Accounts with these balances, all unlocked. -/
def opened (balance : ι → Int64) : Accounts ι := ⟨balance, fun _ => false⟩

/-- Each call returns what it does on the plain ledger, and leaves the accounts unlocked, with the
balances of the plain ledger. -/
def Agree (balance : ι → Int64) (calls : List (Call ι)) : Prop :=
  Machine.results luaStep (opened balance) calls =
    Machine.results ledgerStep (toInts balance) calls

/-- Nothing overflows that is added to an account. -/
def Fits (balance : ι → ℤ) (acc : ι) (amount : Amount) : Prop :=
  balance acc + amount.value.toInt < 2 ^ 63

/-- What a call adds does not overflow, and a transfer goes in the order of the ids, or it makes no
difference that it does not: neither account covers the amount, or both cover an amount of 0. -/
def Call.Sound (balance : ι → ℤ) : Call ι → Prop
  | .deposit acc amount => Fits balance acc amount
  | .withdraw _ _ => True
  | .transfer fromAcc toAcc _ amount =>
      (fromAcc < toAcc ∧ (amount.value.toInt ≤ balance fromAcc → Fits balance toAcc amount)) ∨
        (balance fromAcc < amount.value.toInt ∧ balance toAcc < amount.value.toInt) ∨
        (amount.value.toInt = 0 ∧ 0 ≤ balance fromAcc ∧ 0 ≤ balance toAcc)

/-! ## The code on unlocked accounts -/

/-- A flag that was set is reset. -/
theorem update_locked (acc : ι) :
    Function.update (Function.update (fun _ : ι => false) acc true) acc false = fun _ => false := by
  rw [Function.update_idem]
  exact Function.update_eq_self acc _

/-- Both flags that were set are reset. -/
theorem update_locked_both {first second : ι} (hne : first ≠ second) :
    Function.update (Function.update (Function.update (Function.update
      (fun _ : ι => false) first true) second true) first false) second false =
        fun _ => false := by
  rw [Function.update_comm hne, Function.update_idem, Function.update_comm hne.symm,
    update_locked first]
  exact Function.update_eq_self second _

variable (balance : ι → Int64)

/-- What `deposit` does. -/
theorem deposit_opened (acc : ι) (amount : Int64) :
    deposit (opened balance) acc amount =
      some (true, opened (Function.update balance acc (balance acc + amount))) := by
  simp [deposit, opened, Accounts.setLocked, Accounts.setBalance]

/-- What `withdraw` does. -/
theorem withdraw_opened (acc : ι) (amount : Int64) :
    withdraw (opened balance) acc amount =
      if amount ≤ balance acc then
        some (true, opened (Function.update balance acc (balance acc - amount)))
      else some (false, opened balance) := by
  simp [withdraw, opened, Accounts.setLocked, Accounts.setBalance]

/-- What `transfer` does with the account that is first in the order and the other one. -/
theorem transferInOrder_opened {first second : ι} (hne : first ≠ second) (amount : Int64) :
    transferInOrder (opened balance) first second amount =
      if amount ≤ balance first then
        some (true, opened (Function.update (Function.update balance first
          (balance first - amount)) second (balance second + amount)))
      else some (false, opened balance) := by
  simp [transferInOrder, opened, Accounts.setLocked, Accounts.setBalance, update_locked_both hne,
    Function.update_of_ne hne.symm]

/-! ## When a call does what it does on the plain ledger -/

/-- A balance is read back as it is written. -/
theorem toInts_update (acc : ι) (x : Int64) :
    toInts (Function.update balance acc x) = Function.update (toInts balance) acc x.toInt := by
  funext a
  unfold toInts
  by_cases ha : a = acc
  · rw [ha, Function.update_self, Function.update_self]
  · rw [Function.update_of_ne ha, Function.update_of_ne ha]

/-- An addition is one write. -/
theorem update_eq_add (ledger : ι → ℤ) (acc : ι) (amount x : ℤ) :
    Function.update ledger acc x = add ledger acc amount ↔ x = ledger acc + amount := by
  constructor
  · intro heq
    have hacc := congrFun heq acc
    rwa [Function.update_self, add, if_pos rfl] at hacc
  · rintro rfl
    funext a
    unfold add
    rw [Function.update_apply]
    split_ifs with ha
    · rw [ha]
    · rfl

/-- A move is made of two writes. -/
theorem update_eq_move (ledger : ι → ℤ) {fromAcc toAcc : ι} (hne : fromAcc ≠ toAcc)
    (amount x y : ℤ) :
    Function.update (Function.update ledger fromAcc x) toAcc y = move ledger fromAcc toAcc amount ↔
      x = ledger fromAcc - amount ∧ y = ledger toAcc + amount := by
  constructor
  · intro heq
    have hfrom := congrFun heq fromAcc
    have hto := congrFun heq toAcc
    rw [Function.update_of_ne hne, Function.update_self, move, if_pos rfl] at hfrom
    rw [Function.update_self, move, if_neg hne.symm, if_pos rfl] at hto
    exact ⟨hfrom, hto⟩
  · rintro ⟨rfl, rfl⟩
    funext a
    unfold move
    rw [Function.update_apply, Function.update_apply]
    split_ifs with hto hfrom hfrom
    · exact absurd (hfrom.symm.trans hto) hne
    · rw [hto]
    · rw [hfrom]
    · rfl

omit [LinearOrder ι] in
/-- The answers are the same just if what is returned and the balances are. -/
theorem answer_eq_iff {balance : ι → Int64} {result : Bool × (ι → ℤ)} (returned : Bool) :
    (some (returned, opened balance)).map (Prod.map id Accounts.view) =
        some (result.1, result.2, fun _ => false) ↔
      returned = result.1 ∧ toInts balance = result.2 := by
  simp [opened, Accounts.view]

/-- A transfer from the account that is first in the order. -/
theorem transfer_forward_iff {fromAcc toAcc : ι} (hne : fromAcc ≠ toAcc) (amount : Amount) :
    (transferInOrder (opened balance) fromAcc toAcc amount.value).map
        (Prod.map id Accounts.view) = (ledgerStep (toInts balance)
          (.transfer fromAcc toAcc hne amount)).1 ↔
      (amount.value.toInt ≤ toInts balance fromAcc →
        Fits (toInts balance) toAcc amount) := by
  rw [transferInOrder_opened balance hne, ledgerStep, Call.post]
  by_cases hle : amount.value.toInt ≤ toInts balance fromAcc
  · rw [if_pos (Int64.le_iff_toInt_le.mpr hle), if_pos hle, answer_eq_iff, toInts_update,
      toInts_update, update_eq_move _ hne]
    have hsub : (balance fromAcc - amount.value).toInt =
        toInts balance fromAcc - amount.value.toInt := FixedWidth.toInt_sub amount.nonneg hle
    have hadd := FixedWidth.toInt_add_eq_iff (a := balance toAcc) amount.nonneg
    simp only [hsub, hle, true_and, forall_const]
    exact hadd
  · rw [if_neg fun h => hle (Int64.le_iff_toInt_le.mp h), if_neg hle, answer_eq_iff]
    simp [hle]

/-- What is debited where it should be credited, and the other way round, is an amount of 0. -/
theorem eq_zero_of_swapped {a amount : Int64} (hamount : 0 ≤ amount.toInt)
    (ha : (a + amount).toInt = a.toInt - amount.toInt) : amount.toInt = 0 := by
  have hle := a.le_toInt
  have hlt := amount.toInt_lt
  by_cases hfits : a.toInt + amount.toInt < 2 ^ 63
  · rw [(FixedWidth.toInt_add_eq_iff hamount).mpr hfits] at ha
    omega
  · -- it wraps around once, by less than `2 * amount`
    rw [Int64.toInt_add, Int.bmod] at ha
    omega

/-- A transfer from the account that is second in the order. -/
theorem transfer_backward_iff {fromAcc toAcc : ι} (hne : fromAcc ≠ toAcc) (amount : Amount) :
    (transferInOrder (opened balance) toAcc fromAcc amount.value).map
        (Prod.map id Accounts.view) = (ledgerStep (toInts balance)
          (.transfer fromAcc toAcc hne amount)).1 ↔
      (toInts balance fromAcc < amount.value.toInt ∧ toInts balance toAcc < amount.value.toInt) ∨
        (amount.value.toInt = 0 ∧ 0 ≤ toInts balance fromAcc ∧ 0 ≤ toInts balance toAcc) := by
  rw [transferInOrder_opened balance hne.symm, ledgerStep, Call.post]
  have hnonneg := amount.nonneg
  by_cases hto : amount.value.toInt ≤ toInts balance toAcc
  · rw [if_pos (Int64.le_iff_toInt_le.mpr hto)]
    by_cases hfrom : amount.value.toInt ≤ toInts balance fromAcc
    · -- both would pay
      rw [if_pos hfrom, answer_eq_iff, Function.update_comm hne.symm, toInts_update, toInts_update,
        update_eq_move _ hne]
      have hsub : (balance toAcc - amount.value).toInt =
          toInts balance toAcc - amount.value.toInt := FixedWidth.toInt_sub hnonneg hto
      have hadd := FixedWidth.toInt_add_eq_iff (a := balance fromAcc) hnonneg
      constructor
      · rintro ⟨-, hcredited, -⟩
        have hzero := eq_zero_of_swapped hnonneg hcredited
        exact .inr ⟨hzero, by omega, by omega⟩
      · rintro (⟨hlt, -⟩ | ⟨hzero, -, -⟩)
        · omega
        · have hlt := (balance fromAcc).toInt_lt
          refine ⟨rfl, ?_, by omega⟩
          rw [hadd.mpr (by omega), hzero]
          exact (Int.add_zero _).trans (Int.sub_zero _).symm
    · rw [if_neg hfrom, answer_eq_iff]
      simp only [Bool.true_eq_false, false_and, false_iff]
      omega
  · rw [if_neg fun h => hto (Int64.le_iff_toInt_le.mp h)]
    by_cases hfrom : amount.value.toInt ≤ toInts balance fromAcc
    · rw [if_pos hfrom, answer_eq_iff]
      simp only [Bool.false_eq_true, false_and, false_iff]
      omega
    · rw [if_neg hfrom, answer_eq_iff]
      simp only [true_and, true_iff]
      omega

/-- **One call.**  It does what it does on the plain ledger just if it is sound there. -/
theorem run_opened_iff (call : Call ι) :
    (luaStep (opened balance) call).1 = (ledgerStep (toInts balance) call).1 ↔
      call.Sound (toInts balance) := by
  cases call with
  | deposit acc amount =>
      rw [luaStep, Call.run, deposit_opened, ledgerStep, Call.post, answer_eq_iff, toInts_update,
        update_eq_add]
      simp only [true_and]
      exact FixedWidth.toInt_add_eq_iff amount.nonneg
  | withdraw acc amount =>
      rw [luaStep, Call.run, withdraw_opened, ledgerStep, Call.post]
      by_cases hle : amount.value.toInt ≤ toInts balance acc
      · rw [if_pos (Int64.le_iff_toInt_le.mpr hle), if_pos hle, answer_eq_iff, toInts_update,
          update_eq_add]
        exact iff_of_true ⟨rfl, FixedWidth.toInt_sub amount.nonneg hle⟩ trivial
      · rw [if_neg fun h => hle (Int64.le_iff_toInt_le.mp h), if_neg hle, answer_eq_iff]
        exact iff_of_true ⟨rfl, rfl⟩ trivial
  | transfer fromAcc toAcc hne amount =>
      rw [luaStep, Call.run, transfer, Call.Sound]
      by_cases hlt : fromAcc < toAcc
      · rw [if_pos hlt, transfer_forward_iff balance hne amount]
        simp only [hlt, true_and]
        -- the other two cases credit nothing, or what is no credit
        constructor
        · exact Or.inl
        · rintro (hfits | ⟨hpoor, -⟩ | ⟨hzero, -, -⟩)
          · exact hfits
          · intro hle
            omega
          · intro _
            have hto := (balance toAcc).toInt_lt
            unfold Fits toInts
            omega
      · rw [if_neg hlt, transfer_backward_iff balance hne amount]
        simp only [hlt, false_and, false_or]

/-! ## Sequences of calls -/

/-- The accounts are unlocked, and have the balances of the plain ledger. -/
def Follows (accs : Accounts ι) (ledger : ι → ℤ) : Prop :=
  accs.view = (ledger, fun _ => false)

omit [LinearOrder ι] in
/-- They are determined by the balances. -/
theorem Follows.eq_opened {accs : Accounts ι} {ledger : ι → ℤ} (h : Follows accs ledger) :
    accs = opened accs.balance ∧ toInts accs.balance = ledger := by
  obtain ⟨hbalance, hlocked⟩ := Prod.mk.inj h
  exact ⟨Accounts.ext rfl hlocked, hbalance⟩

/-- **When the accounts follow the plain ledger.**  Each call returns what it should, with all flags
reset and the balances of the plain ledger, if and only if each call is sound for the balances that
the plain ledger has before it. -/
theorem calls_agree_iff (calls : List (Call ι)) :
    Agree balance calls ↔
      ∀ before call rest, calls = before ++ call :: rest →
        call.Sound (Machine.after ledgerStep (toInts balance) before) := by
  refine Machine.results_rel_iff (fun accs ledger call hfollows => ?_) ?_
    (show Follows (opened balance) (toInts balance) from rfl) calls
  · obtain ⟨haccs, rfl⟩ := hfollows.eq_opened
    rw [haccs]
    exact run_opened_iff accs.balance call
  · -- while the calls agree, the accounts follow the ledger
    intro accs ledger call _ hsame
    cases hrun : call.run accs with
    | none =>
        rw [luaStep, hrun] at hsame
        cases hsame
    | some answer =>
        rw [luaStep, hrun, ledgerStep] at hsame
        have hview := congrArg Prod.snd (Option.some.inj hsame)
        rw [luaStep, hrun]
        exact hview

/-- Account 2 holds 100 and account 1 nothing: a transfer of 30 from 2 to 1 is refused. -/
theorem not_agree_reversed :
    ¬ Agree (fun a : ℕ => if a = 2 then 100 else 0)
      [.transfer 2 1 (by decide) ⟨30, by decide⟩] := by
  intro hagree
  have hreturns := congrArg (List.map (Option.map Prod.fst)) hagree
  revert hreturns
  decide

end Lock.Lua
