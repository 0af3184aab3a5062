/-
# Accounts in MVars (`haskell/shared_memory/BankAccount.hs`)

`deposit`, `withdraw` and `readBalance` take the balance out of the variable of the account and put
one back, and `transfer` is a `withdraw` and then a `deposit`.  The forked threads make their calls,
each puts `()` into `done` in the end, and `main` takes that as often as there are threads, and then
reads one account after the other.

GHC's `Int` has 64 bits and wraps around.  No step makes or loses money, counting what a thread has
in hand.
-/
import Cocurrency.Lib.FixedWidth
import Cocurrency.Lib.Halting
import Cocurrency.Lib.MonitorHalts
import Cocurrency.Lib.MVar
import Mathlib.Data.BitVec
import Mathlib.Data.Fintype.Option
import Mathlib.Algebra.BigOperators.Fin
import Mathlib.Algebra.BigOperators.Ring.Finset
import Mathlib.Algebra.Order.BigOperators.Group.Finset
import Mathlib.Data.Fintype.BigOperators
import Mathlib.Tactic.Abel

namespace Lock

namespace MVarBank

/-! ## The program -/

/-- The variables. -/
inductive Var (α : Type*) where
  | account (a : α)
  /-- Where the forked threads say that they have ended. -/
  | done
  deriving DecidableEq

/-- What is in them. -/
@[reducible] def Value {α : Type*} : Var α → Type
  | .account _ => Int64
  | .done => Unit

/-- What a forked thread calls. -/
inductive Call (α : Type*) where
  | deposit (acc : α) (amount : Int64)
  | transfer (src dst : α) (amount : Int64)

/-- The amount of a call. -/
def Call.amount {α : Type*} : Call α → Int64
  | .deposit _ amount => amount
  | .transfer _ _ amount => amount

/-- Where a thread is in its code. -/
inductive Control (α : Type*) where
  /-- The calls that a forked thread still makes. -/
  | calls (rest : List (Call α))
  /-- The balance is taken, and the new one is to be put back. -/
  | putting (acc : α) (balance : Int64) (rest : List (Call α))
  | ended
  /-- `main` takes `done`, and then so many times more. -/
  | waiting (more : ℕ)
  /-- The balances that are still to be added. -/
  | reading (rest : List α) (total : Int64)
  | puttingBack (acc : α) (balance : Int64) (rest : List α) (total : Int64)

section Code

variable {α : Type*}

/-- The next thing that a thread does. -/
abbrev Instr (α : Type*) := MVar.Instr (Var α) Value (Control α)

/-- `deposit`. -/
def deposit (acc : α) (amount : Int64) (rest : List (Call α)) : Instr α :=
  .take (.account acc) fun bal => .putting acc (bal + amount) rest

/-- `withdraw`, which puts the balance back either way. -/
def withdraw (acc : α) (amount : Int64) (next : Bool → List (Call α)) : Instr α :=
  .take (.account acc) fun bal =>
    if amount ≤ bal then .putting acc (bal - amount) (next true) else .putting acc bal (next false)

/-- `transfer`. -/
def transfer (src dst : α) (amount : Int64) (rest : List (Call α)) : Instr α :=
  withdraw src amount fun ok => if ok then .deposit dst amount :: rest else rest

/-- `readBalance` of one account after the other. -/
def readBalances (total : Int64) : List α → Instr α
  | [] => .finished
  | acc :: rest => .take (.account acc) fun bal => .puttingBack acc bal rest (total + bal)

/-- `main`, when so many threads are to end. -/
def await (accounts : List α) : ℕ → Control α
  | 0 => .reading accounts 0
  | more + 1 => .waiting more

/-- The code of the forked threads and of `main`. -/
def code (accounts : List α) : Control α → Instr α
  | .calls [] => .put .done () .ended
  | .calls (.deposit acc amount :: rest) => deposit acc amount rest
  | .calls (.transfer src dst amount :: rest) => transfer src dst amount rest
  | .putting acc balance rest => .put (.account acc) balance (.calls rest)
  | .ended => .finished
  | .waiting more => .take .done fun _ => await accounts more
  | .reading rest total => readBalances total rest
  | .puttingBack acc balance rest total => .put (.account acc) balance (.reading rest total)

/-- What a thread has taken. -/
def held : Control α → Option (Var α)
  | .putting acc _ _ => some (.account acc)
  | .puttingBack acc _ _ _ => some (.account acc)
  | _ => none

/-- `main` has no balance in hand while it waits. -/
theorem held_await (accounts : List α) (more : ℕ) : held (await accounts more) = none := by
  cases more <;> rfl

/-- Nobody calls `tryTakeMVar`. -/
theorem code_ne_tryTake (accounts : List α) (k : Control α) (v : Var α)
    (next : Option (Value v) → Control α) : code accounts k ≠ .tryTake v next := by
  rcases k with (_ | ⟨⟨acc, amount⟩ | ⟨src, dst, amount⟩, rest⟩) | _ | _ | _ |
    ⟨_ | ⟨acc, rest⟩, total⟩ | _ <;> exact nofun

/-- The accounts are locks. -/
theorem lends (accounts : List α) : MVar.Lends (code accounts) (· ≠ .done) held where
  take k v next hcode := by
    cases k with
    | calls rest =>
        rcases rest with _ | ⟨⟨acc, amount⟩ | ⟨src, dst, amount⟩, rest⟩
        · cases hcode
        · cases hcode
          exact ⟨rfl, fun x => ⟨fun _ => rfl, fun h => absurd nofun h⟩⟩
        · cases hcode
          refine ⟨rfl, fun x => ⟨fun _ => ?_, fun h => absurd nofun h⟩⟩
          dsimp only
          split <;> rfl
    | waiting more =>
        cases hcode
        exact ⟨rfl, fun x => ⟨fun h => absurd rfl h, fun _ => held_await accounts more⟩⟩
    | reading rest total =>
        cases rest with
        | nil => cases hcode
        | cons acc rest =>
            cases hcode
            exact ⟨rfl, fun x => ⟨fun _ => rfl, fun h => absurd nofun h⟩⟩
    | putting acc balance rest => cases hcode
    | ended => cases hcode
    | puttingBack acc balance rest total => cases hcode
  put k v x next hcode := by
    cases k with
    | calls rest =>
        rcases rest with _ | ⟨⟨acc, amount⟩ | ⟨src, dst, amount⟩, rest⟩
        · cases hcode
          exact ⟨fun h => absurd rfl h, fun _ => rfl, rfl⟩
        · cases hcode
        · cases hcode
    | putting acc balance rest =>
        cases hcode
        exact ⟨fun _ => rfl, fun h => absurd nofun h, rfl⟩
    | puttingBack acc balance rest total =>
        cases hcode
        exact ⟨fun _ => rfl, fun h => absurd nofun h, rfl⟩
    | reading rest total => cases rest <;> cases hcode
    | waiting more => cases hcode
    | ended => cases hcode
  tryTake k v next hcode := absurd hcode (code_ne_tryTake accounts k v next)
  finished k hcode := by
    rcases k with (_ | ⟨⟨acc, amount⟩ | ⟨src, dst, amount⟩, rest⟩) | _ | _ | _ |
      ⟨_ | ⟨acc, rest⟩, total⟩ | _ <;> first | rfl | cases hcode

end Code

section Steps

variable {α τ : Type*} [DecidableEq α] [DecidableEq τ]

/-- The accounts, `done` and the threads. -/
abbrev State (α τ : Type*) := MVar.State (Option τ) (Var α) Value (Control α)

/-- The next step of a thread, unless it waits or has finished. -/
def step (accounts : List α) (s : State α τ) (t : Option τ) :
    Option (MVar.Event (Option τ) (Var α) Value × State α τ) :=
  MVar.step (code accounts) s t

/-- When the threads are forked. -/
def start [Fintype τ] (accounts : List α) (initial : α → Int64) (program : τ → List (Call α)) :
    State α τ where
  content
    | .account a => some (initial a)
    | .done => none
  control
    | none => await accounts (Fintype.card τ)
    | some i => .calls (program i)

/-- What a step of thread `t` does. -/
inductive Moves (accounts : List α) (s : State α τ) (t : Option τ) : State α τ → Prop
  | deposits (acc : α) (amount : Int64) (rest : List (Call α)) (bal : Int64) :
      s.control t = .calls (.deposit acc amount :: rest) → s.content (.account acc) = some bal →
      Moves accounts s t (s.set (.account acc) none t (.putting acc (bal + amount) rest))
  | withdraws (src dst : α) (amount : Int64) (rest : List (Call α)) (bal : Int64) :
      s.control t = .calls (.transfer src dst amount :: rest) →
      s.content (.account src) = some bal → amount ≤ bal →
      Moves accounts s t
        (s.set (.account src) none t (.putting src (bal - amount) (.deposit dst amount :: rest)))
  | fails (src dst : α) (amount : Int64) (rest : List (Call α)) (bal : Int64) :
      s.control t = .calls (.transfer src dst amount :: rest) →
      s.content (.account src) = some bal →
      Moves accounts s t (s.set (.account src) none t (.putting src bal rest))
  | puts (acc : α) (balance : Int64) (rest : List (Call α)) :
      s.control t = .putting acc balance rest →
      Moves accounts s t (s.set (.account acc) (some balance) t (.calls rest))
  | ends : s.control t = .calls [] → s.content .done = none →
      Moves accounts s t (s.set .done (some ()) t .ended)
  | awaits (more : ℕ) : s.control t = .waiting more → s.content .done = some () →
      Moves accounts s t (s.set .done none t (await accounts more))
  | reads (acc : α) (rest : List α) (total bal : Int64) :
      s.control t = .reading (acc :: rest) total → s.content (.account acc) = some bal →
      Moves accounts s t
        (s.set (.account acc) none t (.puttingBack acc bal rest (total + bal)))
  | putsBack (acc : α) (balance : Int64) (rest : List α) (total : Int64) :
      s.control t = .puttingBack acc balance rest total →
      Moves accounts s t (s.set (.account acc) (some balance) t (.reading rest total))

variable {accounts : List α} {s s' : State α τ} {t : Option τ}
  {e : MVar.Event (Option τ) (Var α) Value}

/-- A step is one of these moves. -/
theorem moves_step (hs : step accounts s t = some (e, s')) : Moves accounts s t s' := by
  cases hcontrol : s.control t with
  | calls rest =>
      rcases rest with _ | ⟨⟨acc, amount⟩ | ⟨src, dst, amount⟩, rest⟩
      · obtain ⟨hx, -, rfl⟩ := MVar.step_put (by rw [hcontrol]; rfl) hs
        exact .ends hcontrol hx
      · obtain ⟨bal, hx, -, rfl⟩ := MVar.step_take (by rw [hcontrol]; rfl) hs
        exact .deposits acc amount rest bal hcontrol hx
      · obtain ⟨bal, hx, -, rfl⟩ := MVar.step_take (by rw [hcontrol]; rfl) hs
        by_cases hle : amount ≤ bal
        · rw [if_pos hle]
          exact .withdraws src dst amount rest bal hcontrol hx hle
        · rw [if_neg hle]
          exact .fails src dst amount rest bal hcontrol hx
  | putting acc balance rest =>
      obtain ⟨-, -, rfl⟩ := MVar.step_put (by rw [hcontrol]; rfl) hs
      exact .puts acc balance rest hcontrol
  | ended =>
      have hnone : step accounts s t = none := MVar.step_finished (by rw [hcontrol]; rfl)
      rw [hnone] at hs
      cases hs
  | waiting more =>
      obtain ⟨x, hx, -, rfl⟩ := MVar.step_take (by rw [hcontrol]; rfl) hs
      exact .awaits more hcontrol hx
  | reading rest total =>
      cases rest with
      | nil =>
          have hnone : step accounts s t = none := MVar.step_finished (by rw [hcontrol]; rfl)
          rw [hnone] at hs
          cases hs
      | cons acc rest =>
          obtain ⟨bal, hx, -, rfl⟩ := MVar.step_take (by rw [hcontrol]; rfl) hs
          exact .reads acc rest total bal hcontrol hx
  | puttingBack acc balance rest total =>
      obtain ⟨-, -, rfl⟩ := MVar.step_put (by rw [hcontrol]; rfl) hs
      exact .putsBack acc balance rest total hcontrol

end Steps

/-! ## Money -/

section Money

variable {α τ M : Type*} [AddCommGroup M] (m : Int64 → M)

/-- What is deposited by calls. -/
def deposits (calls : List (Call α)) : M :=
  (calls.map fun
    | .deposit _ amount => m amount
    | .transfer _ _ _ => 0).sum

@[simp] theorem deposits_deposit (acc : α) (amount : Int64) (rest : List (Call α)) :
    deposits m (.deposit acc amount :: rest) = m amount + deposits m rest :=
  List.sum_cons

@[simp] theorem deposits_transfer (src dst : α) (amount : Int64) (rest : List (Call α)) :
    deposits m (.transfer src dst amount :: rest) = deposits m rest :=
  List.sum_cons.trans (zero_add _)

/-- What a thread has in hand, and is still to deposit; the second half of a transfer is a deposit,
too. -/
def Control.money : Control α → M
  | .calls rest => deposits m rest
  | .putting _ balance rest => m balance + deposits m rest
  | .puttingBack _ balance _ _ => m balance
  | _ => 0

/-- `main` has no money. -/
theorem money_await (accounts : List α) (more : ℕ) : (await accounts more).money m = 0 := by
  cases more <;> rfl

variable [DecidableEq α] [DecidableEq τ]

/-- What is in an account. -/
def stored (s : State α τ) (a : α) : M := (s.content (.account a)).elim 0 m

variable {s : State α τ} {t : Option τ} {acc : α} {x : Option Int64} {k : Control α}

omit [AddCommGroup M] in
/-- An account is not `done`. -/
theorem content_done_set : (s.set (.account acc) x t k).content .done = s.content .done :=
  MVar.State.set_content_of_ne (by exact nofun)

theorem stored_set_self : stored m (s.set (.account acc) x t k) acc = x.elim 0 m := by
  rw [stored, MVar.State.set_content_self]

theorem stored_set_of_ne {a : α} (h : a ≠ acc) :
    stored m (s.set (.account acc) x t k) a = stored m s a := by
  have hne : Var.account a ≠ Var.account acc := fun heq => h (Var.account.inj heq)
  rw [stored, MVar.State.set_content_of_ne hne, stored]

/-- `done` is no account. -/
theorem stored_set_done {x : Option Unit} (a : α) :
    stored m (s.set .done x t k) a = stored m s a := by
  have hne : Var.account a ≠ Var.done := nofun
  rw [stored, MVar.State.set_content_of_ne hne, stored]

variable [Fintype α] [Fintype τ]

/-- The money in the accounts and with the threads. -/
def allMoney (s : State α τ) : M := ∑ a, stored m s a + ∑ t, (s.control t).money m

variable {accounts : List α} {s' : State α τ}

/-- What is taken out of an account is in hand, and the other way round. -/
theorem money_set_account
    (h : x.elim 0 m + k.money m = stored m s acc + (s.control t).money m) :
    allMoney m (s.set (.account acc) x t k) = allMoney m s := by
  have hstored : ∑ a, stored m (s.set (.account acc) x t k) a + stored m s acc =
      ∑ a, stored m s a + x.elim 0 m := by
    have hupdate : ∀ a, stored m (s.set (.account acc) x t k) a =
        (Function.update (fun a => s.content (.account a)) acc x a).elim 0 m := by
      intro a
      by_cases ha : a = acc
      · subst ha
        rw [stored_set_self, Function.update_self]
      · rw [stored_set_of_ne m ha, Function.update_of_ne ha, stored]
    rw [Finset.sum_congr rfl fun a _ => hupdate a]
    exact Monitor.sum_update_add (fun x : Option Int64 => x.elim 0 m)
      (fun a => s.content (.account a)) acc x
  have hcontrol := Monitor.sum_update_add (Control.money m) s.control t k
  have hsum : allMoney m (s.set (.account acc) x t k) + (stored m s acc + (s.control t).money m) =
      allMoney m s + (x.elim 0 m + k.money m) := by
    rw [allMoney, allMoney]
    calc _ = (∑ a, stored m (s.set (.account acc) x t k) a + stored m s acc) +
          (∑ u, (Function.update s.control t k u).money m + (s.control t).money m) := by
          rw [MVar.State.set]
          abel
      _ = _ := by
          rw [hstored, hcontrol]
          abel
  rw [h] at hsum
  exact add_right_cancel hsum

/-- Putting or taking `()` is nothing to the money. -/
theorem money_set_done {x : Option Unit}
    (h : k.money m = (s.control t).money m) : allMoney m (s.set .done x t k) = allMoney m s := by
  have hcontrol := Monitor.sum_update_add (Control.money m) s.control t k
  rw [h] at hcontrol
  rw [allMoney, allMoney, Finset.sum_congr rfl fun a _ => stored_set_done m a]
  exact congrArg _ (add_right_cancel hcontrol)

/-- The additions and subtractions of thread `t` are exact, as `m` sees them. -/
structure Exact (s : State α τ) (t : Option τ) : Prop where
  add : ∀ acc amount rest bal, s.control t = .calls (.deposit acc amount :: rest) →
    s.content (.account acc) = some bal → m (bal + amount) = m bal + m amount
  sub : ∀ src dst amount rest bal, s.control t = .calls (.transfer src dst amount :: rest) →
    s.content (.account src) = some bal → amount ≤ bal → m (bal - amount) = m bal - m amount

/-- A step keeps the money. -/
theorem money_moves (hexact : Exact m s t)
    (hempty : ∀ a, held (s.control t) = some (.account a) → s.content (.account a) = none)
    (hs : Moves accounts s t s') : allMoney m s' = allMoney m s := by
  cases hs with
  | deposits acc amount rest bal hcontrol hcontent =>
      apply money_set_account
      rw [stored, hcontent, hcontrol]
      simp [Control.money, hexact.add acc amount rest bal hcontrol hcontent, add_assoc]
  | withdraws src dst amount rest bal hcontrol hcontent hle =>
      apply money_set_account
      rw [stored, hcontent, hcontrol]
      simp only [Control.money, hexact.sub src dst amount rest bal hcontrol hcontent hle,
        deposits_deposit, deposits_transfer, Option.elim]
      abel
  | fails src dst amount rest bal hcontrol hcontent =>
      apply money_set_account
      rw [stored, hcontent, hcontrol]
      simp [Control.money]
  | puts acc balance rest hcontrol =>
      apply money_set_account
      rw [stored, hempty acc (by rw [hcontrol, held]), hcontrol]
      simp [Control.money]
  | ends hcontrol hcontent =>
      apply money_set_done
      rw [hcontrol]
      rfl
  | awaits more hcontrol hcontent =>
      apply money_set_done
      rw [hcontrol, money_await]
      rfl
  | reads acc rest total bal hcontrol hcontent =>
      apply money_set_account
      rw [stored, hcontent, hcontrol]
      simp [Control.money]
  | putsBack acc balance rest total hcontrol =>
      apply money_set_account
      rw [stored, hempty acc (by rw [hcontrol, held]), hcontrol]
      simp [Control.money]

end Money

end MVarBank

end Lock
