/-
# Accounts without locks (`bend-lang/shared_memory/bank_account.bend`)

`deposit`, `withdraw` and `transfer` as pure functions on accounts, and lists of them applied to two
accounts one after the other.  Balances and amounts are unsigned numbers, as the literals of the
source are; that no addition overflows is assumed.

A withdrawal or a transfer that is not covered changes nothing, so what a list does depends on its
order: a withdrawal may come before the deposit that would cover it (`balances_differ`).  What an
order does is determined by the operations that it carries out (`balance_applyAll`).

* `Settled` : which operations are carried out is settled by the amounts alone: those of a
  multiset are covered even if nothing comes in, and the others are not even if all of it does;
* `Settled.carriedOut_eq`, `settled_of_carriedOut` : this is so if and only if every order carries
  out the same operations;
* `orders_agree` : then all orders lead to the same balances.
-/
import Mathlib.Algebra.BigOperators.Group.Multiset.Basic
import Mathlib.Algebra.Group.Action.Defs
import Mathlib.Algebra.Order.BigOperators.Group.Multiset
import Mathlib.Algebra.Ring.Nat
import Mathlib.Data.Multiset.Count
import Mathlib.Logic.Function.Basic

namespace Lock.Bend

/-! ## Accounts -/

/-- `type Account`. -/
structure Account where
  idStr : String
  balance : ℕ
  deriving DecidableEq, Repr

/-- `deposit`. -/
def deposit (acc : Account) (amount : ℕ) : Account := { acc with balance := acc.balance + amount }

/-- `withdraw`. -/
def withdraw (acc : Account) (amount : ℕ) : Account :=
  if amount ≤ acc.balance then { acc with balance := acc.balance - amount }
  else acc

/-- `transfer`. -/
def transfer (fromAcc toAcc : Account) (amount : ℕ) : Account × Account :=
  if amount > fromAcc.balance then (fromAcc, toAcc)
  else if amount ≤ 0 then (fromAcc, toAcc)
  else
    let newFrom := { fromAcc with balance := fromAcc.balance - amount }
    let newTo := { toAcc with balance := toAcc.balance + amount }
    (newFrom, newTo)

/-- `batch_deposit`. -/
def batchDeposit (acc : Account) : ℕ → ℕ → Account
  | 0, _ => acc
  | n + 1, amount =>
      let newAcc := deposit acc amount
      batchDeposit newAcc n amount

/-- `batch_transfers`. -/
def batchTransfers (fromAcc toAcc : Account) : ℕ → ℕ → Account × Account
  | 0, _ => (fromAcc, toAcc)
  | n + 1, amount =>
      let pair := transfer fromAcc toAcc amount
      batchTransfers pair.1 pair.2 n amount

/-! ## Lists of operations -/

/-- Which of the two accounts. -/
inductive Side where
  | first
  | second
  deriving DecidableEq, Repr

/-- The other account. -/
def Side.other : Side → Side
  | first => second
  | second => first

theorem Side.other_ne (i : Side) : i.other ≠ i := by
  cases i <;> decide

/-- The balances of both accounts. -/
abbrev Accounts := Side → Account

/-- An operation; a transfer is from account `i` to the other one. -/
inductive Op where
  | deposit (i : Side) (amount : ℕ)
  | withdraw (i : Side) (amount : ℕ)
  | transfer (i : Side) (amount : ℕ)
  deriving DecidableEq, Repr

/-- One operation applied. -/
def apply (accs : Accounts) : Op → Accounts
  | .deposit i amount => Function.update accs i (Bend.deposit (accs i) amount)
  | .withdraw i amount => Function.update accs i (Bend.withdraw (accs i) amount)
  | .transfer i amount =>
      let pair := Bend.transfer (accs i) (accs i.other) amount
      Function.update (Function.update accs i pair.1) i.other pair.2

/-- A list of operations applied in its order. -/
def applyAll (accs : Accounts) : List Op → Accounts
  | [] => accs
  | op :: ops => applyAll (apply accs op) ops

/-- A batch of deposits is a list of them. -/
theorem batchDeposit_eq (accs : Accounts) (i : Side) (n amount : ℕ) :
    applyAll accs (List.replicate n (.deposit i amount)) i = batchDeposit (accs i) n amount := by
  induction n generalizing accs with
  | zero => rfl
  | succ n ih =>
      refine (ih _).trans ?_
      rw [apply, Function.update_self]
      rfl

/-- A batch of transfers is a list of them. -/
theorem batchTransfers_eq (accs : Accounts) (i : Side) (n amount : ℕ) :
    batchTransfers (accs i) (accs i.other) n amount =
      (applyAll accs (List.replicate n (.transfer i amount)) i,
        applyAll accs (List.replicate n (.transfer i amount)) i.other) := by
  induction n generalizing accs with
  | zero => rfl
  | succ n ih =>
      refine Eq.trans ?_ (ih _)
      rw [apply, Function.update_self, Function.update_of_ne i.other_ne.symm, Function.update_self]
      rfl

/-! ## What an operation moves -/

namespace Op

/-- The account that pays. -/
def source : Op → Option Side
  | .deposit _ _ => none
  | .withdraw i _ => some i
  | .transfer i _ => some i

/-- The account that is paid. -/
def target : Op → Option Side
  | .deposit i _ => some i
  | .withdraw _ _ => none
  | .transfer i _ => some i.other

/-- The amount that is asked for. -/
def amount : Op → ℕ
  | .deposit _ amount => amount
  | .withdraw _ amount => amount
  | .transfer _ amount => amount

/-- It is not a transfer of nothing, which is always refused. -/
def Moves : Op → Prop
  | .transfer _ amount => 0 < amount
  | _ => True

/-- What account `i` pays. -/
def takes (i : Side) (op : Op) : ℕ := if op.source = some i then op.amount else 0

/-- What account `i` is paid. -/
def gives (i : Side) (op : Op) : ℕ := if op.target = some i then op.amount else 0

/-- What is taken from the source. -/
theorem takes_of_source {op : Op} {i : Side} (h : op.source = some i) : op.takes i = op.amount :=
  if_pos h

/-- An account does not pay itself. -/
theorem gives_of_source {op : Op} {i : Side} (h : op.source = some i) : op.gives i = 0 := by
  unfold gives
  refine if_neg fun htarget => ?_
  cases op with
  | deposit j m => cases h
  | withdraw j m => cases htarget
  | transfer j m =>
      cases h
      exact i.other_ne (Option.some.inj htarget)

end Op

/-- The operation is carried out. -/
def carries (accs : Accounts) : Op → Bool
  | .deposit _ _ => true
  | .withdraw i amount => decide (amount ≤ (accs i).balance)
  | .transfer i amount => decide (0 < amount ∧ amount ≤ (accs i).balance)

/-- It is if it moves something and is covered. -/
theorem carries_iff (accs : Accounts) (op : Op) :
    carries accs op = true ↔ op.Moves ∧ ∀ i, op.takes i ≤ (accs i).balance := by
  have hcovered : ∀ {j : Side}, op.source = some j →
      ((∀ i, op.takes i ≤ (accs i).balance) ↔ op.amount ≤ (accs j).balance) := by
    intro j hj
    constructor
    · intro h
      rw [← Op.takes_of_source hj]
      exact h j
    · intro h i
      unfold Op.takes
      split
      · rename_i hi
        rw [hj] at hi
        cases hi
        exact h
      · exact Nat.zero_le _
  cases op with
  | deposit j m =>
      refine ⟨fun _ => ⟨trivial, fun i => ?_⟩, fun _ => rfl⟩
      exact Nat.zero_le _
  | withdraw j m =>
      rw [hcovered rfl]
      simp [carries, Op.Moves, Op.amount]
  | transfer j m =>
      rw [hcovered rfl]
      simp [carries, Op.Moves, Op.amount]

/-- What is refused changes nothing. -/
theorem apply_of_not_carries {accs : Accounts} {op : Op} (h : carries accs op = false) :
    apply accs op = accs := by
  cases op with
  | deposit i m => cases h
  | withdraw i m =>
      have hm : ¬m ≤ (accs i).balance := of_decide_eq_false h
      rw [apply, Bend.withdraw, if_neg hm, Function.update_eq_self]
  | transfer i m =>
      have hm : ¬(0 < m ∧ m ≤ (accs i).balance) := of_decide_eq_false h
      have hsame : Bend.transfer (accs i) (accs i.other) m = (accs i, accs i.other) := by
        unfold Bend.transfer
        split
        · rfl
        · rw [if_pos (by omega)]
      rw [apply, hsame, Function.update_eq_self, Function.update_eq_self]

/-- A transfer that is not refused. -/
theorem transfer_eq {fromAcc toAcc : Account} {amount : ℕ} (hpos : 0 < amount)
    (h : amount ≤ fromAcc.balance) :
    Bend.transfer fromAcc toAcc amount =
      ({ fromAcc with balance := fromAcc.balance - amount },
        { toAcc with balance := toAcc.balance + amount }) := by
  unfold Bend.transfer
  rw [if_neg (Nat.not_lt.mpr h), if_neg (Nat.not_le.mpr hpos)]

/-- What is carried out moves its amount. -/
theorem balance_apply {accs : Accounts} {op : Op} (h : carries accs op = true) (i : Side) :
    (apply accs op i).balance + op.takes i = (accs i).balance + op.gives i := by
  cases op with
  | deposit j m =>
      cases j <;> cases i <;>
        simp [apply, Bend.deposit, Op.takes, Op.gives, Op.source, Op.target, Op.amount]
  | withdraw j m =>
      have hm : m ≤ (accs j).balance := of_decide_eq_true h
      cases j <;> cases i <;>
        simp [apply, Bend.withdraw, hm, Op.takes, Op.gives, Op.source, Op.target, Op.amount]
  | transfer j m =>
      obtain ⟨hpos, hm⟩ : 0 < m ∧ m ≤ (accs j).balance := of_decide_eq_true h
      rw [apply, transfer_eq hpos hm]
      cases j <;> cases i <;>
        simp [Side.other, hm, Op.takes, Op.gives, Op.source, Op.target, Op.amount]

/-! ## What a list carries out -/

/-- The operations that a list carries out. -/
def carriedOut (accs : Accounts) : List Op → Multiset Op
  | [] => 0
  | op :: ops => (if carries accs op then {op} else 0) + carriedOut (apply accs op) ops

/-- The first operation is carried out. -/
theorem carriedOut_cons_of_carries {accs : Accounts} {op : Op} (h : carries accs op = true)
    (ops : List Op) : carriedOut accs (op :: ops) = op ::ₘ carriedOut (apply accs op) ops := by
  rw [carriedOut, if_pos h, Multiset.singleton_add]

/-- The first operation is not carried out. -/
theorem carriedOut_cons_of_not {accs : Accounts} {op : Op} (h : carries accs op = false)
    (ops : List Op) : carriedOut accs (op :: ops) = carriedOut accs ops := by
  rw [carriedOut, if_neg (by simp [h]), Multiset.zero_add, apply_of_not_carries h]

/-- The first operation changes nothing. -/
theorem applyAll_cons_of_not {accs : Accounts} {op : Op} (h : carries accs op = false)
    (ops : List Op) : applyAll accs (op :: ops) = applyAll accs ops := by
  rw [applyAll, apply_of_not_carries h]

/-- The books: what has been carried out accounts for the balances. -/
theorem balance_applyAll (accs : Accounts) (ops : List Op) (i : Side) :
    (applyAll accs ops i).balance + ((carriedOut accs ops).map (Op.takes i)).sum =
      (accs i).balance + ((carriedOut accs ops).map (Op.gives i)).sum := by
  induction ops generalizing accs with
  | nil => rfl
  | cons op ops ih =>
      cases h : carries accs op with
      | false =>
          rw [applyAll_cons_of_not h, carriedOut_cons_of_not h]
          exact ih accs
      | true =>
          have hop := balance_apply h i
          have hops := ih (apply accs op)
          rw [carriedOut_cons_of_carries h, Multiset.map_cons, Multiset.sum_cons, Multiset.map_cons,
            Multiset.sum_cons]
          unfold applyAll
          omega

/-- **Orders that carry out the same operations lead to the same balances.** -/
theorem balance_eq_of_carriedOut {accs : Accounts} {l l' : List Op}
    (h : carriedOut accs l = carriedOut accs l') (i : Side) :
    (applyAll accs l i).balance = (applyAll accs l' i).balance := by
  have hl := balance_applyAll accs l i
  have hl' := balance_applyAll accs l' i
  rw [← h] at hl'
  omega

/-- What is carried out was asked for. -/
theorem carriedOut_le (accs : Accounts) (ops : List Op) : carriedOut accs ops ≤ ↑ops := by
  induction ops generalizing accs with
  | nil => exact Multiset.zero_le _
  | cons op ops ih =>
      cases h : carries accs op with
      | false =>
          rw [carriedOut_cons_of_not h, ← Multiset.cons_coe]
          exact (ih accs).trans (Multiset.le_cons_self _ _)
      | true =>
          rw [carriedOut_cons_of_carries h, ← Multiset.cons_coe]
          exact Multiset.cons_le_cons _ (ih _)

/-- The operations of two pieces. -/
theorem carriedOut_append (accs : Accounts) (ops more : List Op) :
    carriedOut accs (ops ++ more) = carriedOut accs ops + carriedOut (applyAll accs ops) more := by
  induction ops generalizing accs with
  | nil => exact (Multiset.zero_add _).symm
  | cons op ops ih =>
      rw [List.cons_append, carriedOut, carriedOut, ih, Multiset.add_assoc]
      rfl

/-! ## When the order does not matter -/

/-- **What is carried out is settled** by the amounts: all of `carried` is covered even if nothing
comes in; one more of any other operation of the list is refused even if everything comes in. -/
structure Settled (accs : Accounts) (ops : List Op) (carried : Multiset Op) : Prop where
  le : carried ≤ ↑ops
  moves : ∀ op ∈ carried, op.Moves
  covered : ∀ i, (carried.map (Op.takes i)).sum ≤ (accs i).balance
  short : ∀ op, carried.count op < ops.count op → op.Moves → ∃ i, op.source = some i ∧
    (accs i).balance + (carried.map (Op.gives i)).sum < (carried.count op + 1) * op.amount

/-- The more operations, the more they amount to. -/
theorem sum_map_mono {s t : Multiset Op} (f : Op → ℕ) (h : s ≤ t) :
    (s.map f).sum ≤ (t.map f).sum := by
  obtain ⟨u, rfl⟩ := Multiset.le_iff_exists_add.mp h
  rw [Multiset.map_add, Multiset.sum_add]
  exact Nat.le_add_right _ _

/-- All operations of one kind together. -/
theorem count_mul_le (s : Multiset Op) (f : Op → ℕ) (op : Op) :
    s.count op * f op ≤ (s.map f).sum := by
  have hle := sum_map_mono f (Multiset.le_count_iff_replicate_le.mp (Nat.le_refl (s.count op)))
  rwa [Multiset.map_replicate, Multiset.sum_replicate, smul_eq_mul] at hle

namespace Settled

variable {accs : Accounts} {ops : List Op} {carried : Multiset Op}

/-- **One step.**  When the operations `tried` have been tried and `out` of them carried out, as
many of each kind as are to be, the next one is carried out if and only if there are to be more. -/
theorem carries_iff (h : Settled accs ops carried) {accs' : Accounts} {tried out : Multiset Op}
    {op : Op} (hcount : ∀ o, out.count o = min (tried.count o) (carried.count o))
    (hbooks : ∀ i, (accs' i).balance + (out.map (Op.takes i)).sum =
      (accs i).balance + (out.map (Op.gives i)).sum)
    (hle : op ::ₘ tried ≤ ↑ops) :
    carries accs' op = true ↔ tried.count op < carried.count op := by
  have hout : out ≤ carried := by
    rw [Multiset.le_iff_count]
    intro o
    rw [hcount]
    exact Nat.min_le_right _ _
  rw [Bend.carries_iff]
  constructor
  · rintro ⟨hmoves, hcovered⟩
    by_contra hnot
    have hop : tried.count op + 1 ≤ ops.count op := by
      have := Multiset.count_le_of_le op hle
      rwa [Multiset.count_cons_self, Multiset.coe_count] at this
    obtain ⟨i, hsource, hshort⟩ := h.short op (by omega) hmoves
    have hall : out.count op = carried.count op := by
      rw [hcount]
      omega
    have hpaid := count_mul_le out (Op.takes i) op
    have hgiven := sum_map_mono (Op.gives i) hout
    have hthis := hcovered i
    have hbook := hbooks i
    rw [Op.takes_of_source hsource] at hpaid hthis
    rw [hall] at hpaid
    rw [Nat.add_mul, Nat.one_mul] at hshort
    omega
  · intro hlt
    have hmem : op ∈ carried := Multiset.count_pos.mp (by omega)
    refine ⟨h.moves op hmem, fun i => ?_⟩
    have hnext : op ::ₘ out ≤ carried := by
      rw [Multiset.le_iff_count]
      intro o
      by_cases ho : o = op
      · rw [ho, Multiset.count_cons_self, hcount]
        omega
      · rw [Multiset.count_cons_of_ne ho]
        exact Multiset.count_le_of_le o hout
    have hpaid := sum_map_mono (Op.takes i) hnext
    have hcovered := h.covered i
    have hbook := hbooks i
    rw [Multiset.map_cons, Multiset.sum_cons] at hpaid
    omega

/-- **Every order carries out the same operations.** -/
theorem carriedOut_eq (h : Settled accs ops carried) {l : List Op} (hl : l.Perm ops) :
    carriedOut accs l = carried := by
  have hrun : ∀ (rest : List Op) (accs' : Accounts) (tried out : Multiset Op),
      tried + ↑rest = (↑ops : Multiset Op) →
      (∀ o, out.count o = min (tried.count o) (carried.count o)) →
      (∀ i, (accs' i).balance + (out.map (Op.takes i)).sum =
        (accs i).balance + (out.map (Op.gives i)).sum) →
      out + carriedOut accs' rest = carried := by
    intro rest
    induction rest with
    | nil =>
        intro accs' tried out hops hcount _
        rw [Multiset.coe_nil, Multiset.add_zero] at hops
        rw [carriedOut, Multiset.add_zero, Multiset.ext]
        intro o
        rw [hcount, hops]
        exact Nat.min_eq_right (Multiset.count_le_of_le o h.le)
    | cons op rest ih =>
        intro accs' tried out hops hcount hbooks
        have htried : (op ::ₘ tried) + ↑rest = (↑ops : Multiset Op) := by
          rw [← hops, ← Multiset.cons_coe, Multiset.add_cons, Multiset.cons_add]
        have hle : op ::ₘ tried ≤ ↑ops := Multiset.le_iff_exists_add.mpr ⟨↑rest, htried.symm⟩
        have hstep := h.carries_iff hcount hbooks hle
        cases hcarries : carries accs' op with
        | true =>
            have hlt := hstep.mp hcarries
            rw [carriedOut_cons_of_carries hcarries, Multiset.add_cons, ← Multiset.cons_add]
            refine ih (apply accs' op) (op ::ₘ tried) (op ::ₘ out) htried (fun o => ?_) fun i => ?_
            · by_cases ho : o = op
              · rw [ho, Multiset.count_cons_self, Multiset.count_cons_self, hcount]
                omega
              · rw [Multiset.count_cons_of_ne ho, Multiset.count_cons_of_ne ho, hcount]
            · have hop := balance_apply hcarries i
              have hbook := hbooks i
              rw [Multiset.map_cons, Multiset.sum_cons, Multiset.map_cons, Multiset.sum_cons]
              omega
        | false =>
            have hnot : ¬tried.count op < carried.count op := by
              rw [← hstep, hcarries]
              exact Bool.false_ne_true
            rw [carriedOut_cons_of_not hcarries]
            refine ih accs' (op ::ₘ tried) out htried (fun o => ?_) hbooks
            by_cases ho : o = op
            · rw [ho, Multiset.count_cons_self, hcount]
              omega
            · rw [Multiset.count_cons_of_ne ho, hcount]
  have hall := hrun l accs 0 0 (by rw [Multiset.zero_add]; exact Multiset.coe_eq_coe.mpr hl)
    (fun o => by simp) fun i => rfl
  rwa [Multiset.zero_add] at hall

end Settled

/-- A sum over what is carried out is nothing if it is nothing over the list. -/
theorem sum_carriedOut_eq_zero {accs : Accounts} {ops : List Op} {f : Op → ℕ}
    (h : ∀ op ∈ ops, f op = 0) : ((carriedOut accs ops).map f).sum = 0 := by
  have hle := sum_map_mono f (carriedOut_le accs ops)
  have hzero : ((ops : Multiset Op).map f).sum = 0 := by
    refine Multiset.sum_eq_zero fun x hx => ?_
    obtain ⟨op, hop, rfl⟩ := Multiset.mem_map.mp hx
    exact h op hop
  omega

/-- Only what moves money is carried out. -/
theorem moves_of_mem_carriedOut {accs : Accounts} {ops : List Op} {op : Op}
    (h : op ∈ carriedOut accs ops) : op.Moves := by
  induction ops generalizing accs with
  | nil => exact absurd h (Multiset.notMem_zero op)
  | cons o ops ih =>
      cases hcarries : carries accs o with
      | true =>
          rw [carriedOut_cons_of_carries hcarries, Multiset.mem_cons] at h
          rcases h with rfl | h
          · exact ((carries_iff accs op).mp hcarries).1
          · exact ih h
      | false =>
          rw [carriedOut_cons_of_not hcarries] at h
          exact ih h

/-- Deposits are never refused. -/
theorem count_carriedOut_of_source {op : Op} (hsource : op.source = none) (accs : Accounts)
    (ops : List Op) : (carriedOut accs ops).count op = ops.count op := by
  induction ops generalizing accs with
  | nil => rfl
  | cons o ops ih =>
      cases hcarries : carries accs o with
      | true =>
          rw [carriedOut_cons_of_carries hcarries]
          by_cases ho : op = o
          · rw [ho, Multiset.count_cons_self, List.count_cons_self, ← ho, ih]
          · rw [Multiset.count_cons_of_ne ho, List.count_cons_of_ne (Ne.symm ho), ih]
      | false =>
          have hne : o ≠ op := by
            rintro rfl
            cases o with
            | deposit i m => cases hcarries
            | withdraw i m => cases hsource
            | transfer i m => cases hsource
          rw [carriedOut_cons_of_not hcarries, List.count_cons_of_ne hne, ih]

/-- An operation that is tried again and again is at last refused for want of cover. -/
theorem balance_lt_of_replicate {op : Op} {i : Side} (hsource : op.source = some i)
    (hmoves : op.Moves) {accs : Accounts} {n : ℕ}
    (h : (carriedOut accs (List.replicate n op)).count op < n) :
    (accs i).balance < ((carriedOut accs (List.replicate n op)).count op + 1) * op.amount := by
  induction n generalizing accs with
  | zero => exact absurd h (Nat.not_lt_zero _)
  | succ n ih =>
      rw [List.replicate_succ] at h ⊢
      cases hcarries : carries accs op with
      | true =>
          rw [carriedOut_cons_of_carries hcarries, Multiset.count_cons_self] at h ⊢
          have hless : (carriedOut (apply accs op) (List.replicate n op)).count op < n := by omega
          have hrest := ih hless
          have hop := balance_apply hcarries i
          rw [Op.takes_of_source hsource, Op.gives_of_source hsource] at hop
          rw [Nat.add_mul _ 1, Nat.one_mul]
          omega
      | false =>
          have hshort : (accs i).balance < op.amount := by
            by_contra hnot
            have hcovered : carries accs op = true := by
              rw [carries_iff]
              refine ⟨hmoves, fun j => ?_⟩
              unfold Op.takes
              split
              · rename_i hj
                rw [hsource] at hj
                cases hj
                exact Nat.not_lt.mp hnot
              · exact Nat.zero_le _
            rw [hcovered] at hcarries
            cases hcarries
          exact Nat.lt_of_lt_of_le hshort (Nat.le_mul_of_pos_left _ (Nat.succ_pos _))

/-- The operations that account `i` pays for. -/
def paying (i : Side) (ops : List Op) : List Op := ops.filter fun op => decide (op.source = some i)

/-- The others. -/
def others (i : Side) (ops : List Op) : List Op := ops.filter fun op => !decide (op.source = some i)

theorem gives_paying {i : Side} {ops : List Op} : ∀ op ∈ paying i ops, op.gives i = 0 := by
  intro op hop
  exact Op.gives_of_source (of_decide_eq_true (List.mem_filter.mp hop).2)

theorem takes_others {i : Side} {ops : List Op} : ∀ op ∈ others i ops, op.takes i = 0 := by
  intro op hop
  refine if_neg fun hsource => ?_
  have hne := (List.mem_filter.mp hop).2
  rw [hsource] at hne
  simp at hne

/-- An order in which the payments of account `i` come first, when nothing has come in: what is
carried out of them is covered. -/
theorem covered_of_paying {accs : Accounts} {ops : List Op} {i : Side} :
    ((carriedOut accs (paying i ops ++ others i ops)).map (Op.takes i)).sum ≤ (accs i).balance := by
  have hbooks := balance_applyAll accs (paying i ops) i
  rw [sum_carriedOut_eq_zero gives_paying] at hbooks
  have hnone : ((carriedOut (applyAll accs (paying i ops)) (others i ops)).map
      (Op.takes i)).sum = 0 := sum_carriedOut_eq_zero takes_others
  rw [carriedOut_append, Multiset.map_add, Multiset.sum_add, hnone]
  omega

/-- The payments of account `i`, those of one kind first. -/
theorem exists_paying_perm {op : Op} {i : Side} (hsource : op.source = some i) (ops : List Op) :
    ∃ rest, op ∉ rest ∧ (∀ o ∈ rest, o.gives i = 0) ∧
      (List.replicate (ops.count op) op ++ rest).Perm (paying i ops) := by
  refine ⟨(paying i ops).filter fun o => !decide (o = op), by simp, fun o ho => ?_, ?_⟩
  · exact gives_paying o (List.mem_filter.mp ho).1
  · have hsame : (paying i ops).filter (fun o => decide (o = op)) =
        List.replicate (ops.count op) op := by
      unfold paying
      rw [List.filter_eq, List.count_filter (by simp [hsource])]
    rw [← hsame]
    exact List.filter_append_perm _ _

/-- What is not in the list is not carried out. -/
theorem count_carriedOut_eq_zero {accs : Accounts} {ops : List Op} {op : Op} (h : op ∉ ops) :
    (carriedOut accs ops).count op = 0 := by
  refine Multiset.count_eq_zero.mpr fun hmem => ?_
  exact h (Multiset.mem_coe.mp (Multiset.mem_of_le (carriedOut_le _ _) hmem))

/-- An order in which everything that comes in to account `i` has done so when one of its payments
is tried as often as it can be: if it is refused at last, it is not covered even then. -/
theorem short_of_others {accs : Accounts} {op : Op} {i : Side} (hsource : op.source = some i)
    (hmoves : op.Moves) {ops rest : List Op} {n : ℕ} (hrest : op ∉ rest)
    (hgives : ∀ o ∈ rest, o.gives i = 0) {carried : Multiset Op}
    (hall : carriedOut accs (others i ops ++ (List.replicate n op ++ rest)) = carried)
    (hcount : carried.count op < n) :
    (accs i).balance + (carried.map (Op.gives i)).sum < (carried.count op + 1) * op.amount := by
  rw [carriedOut_append, carriedOut_append] at hall
  have hbooks := balance_applyAll accs (others i ops) i
  rw [sum_carriedOut_eq_zero takes_others] at hbooks
  generalize applyAll accs (others i ops) = mid at hall hbooks
  generalize applyAll mid (List.replicate n op) = late at hall
  have hcomes : (carried.map (Op.gives i)).sum =
      ((carriedOut accs (others i ops)).map (Op.gives i)).sum := by
    have hsame : ((carriedOut mid (List.replicate n op)).map (Op.gives i)).sum = 0 := by
      refine sum_carriedOut_eq_zero fun o ho => ?_
      rw [List.eq_of_mem_replicate ho]
      exact Op.gives_of_source hsource
    rw [← hall, Multiset.map_add, Multiset.sum_add, Multiset.map_add, Multiset.sum_add, hsame,
      sum_carriedOut_eq_zero hgives]
    omega
  have hkind : carried.count op = (carriedOut mid (List.replicate n op)).count op := by
    have hnot : op ∉ others i ops := by
      unfold others
      simp [hsource]
    rw [← hall, Multiset.count_add, Multiset.count_add, count_carriedOut_eq_zero hnot,
      count_carriedOut_eq_zero hrest]
    omega
  rw [hkind] at hcount ⊢
  have hlt := balance_lt_of_replicate hsource hmoves hcount
  omega

/-- **Only if it is settled do all orders carry out the same operations**: the payments of an
account may come before everything else, or after it. -/
theorem settled_of_carriedOut {accs : Accounts} {ops : List Op} {carried : Multiset Op}
    (h : ∀ l : List Op, l.Perm ops → carriedOut accs l = carried) : Settled accs ops carried := by
  have hself := h ops (List.Perm.refl ops)
  refine ⟨?_, fun op hop => ?_, fun i => ?_, fun op hcount hmoves => ?_⟩
  · rw [← hself]
    exact carriedOut_le accs ops
  · rw [← hself] at hop
    exact moves_of_mem_carriedOut hop
  · rw [← h _ (List.filter_append_perm _ ops)]
    exact covered_of_paying
  · cases hsource : op.source with
    | none =>
        rw [← hself, count_carriedOut_of_source hsource] at hcount
        exact absurd hcount (Nat.lt_irrefl _)
    | some i =>
        obtain ⟨rest, hrest, hgives, hperm⟩ := exists_paying_perm hsource ops
        have horder : (others i ops ++ (List.replicate (ops.count op) op ++ rest)).Perm ops :=
          (hperm.append_left _).trans
            (List.perm_append_comm.trans (List.filter_append_perm _ ops))
        exact ⟨i, rfl, short_of_others hsource hmoves hrest hgives (h _ horder) hcount⟩

/-- **When the order does not matter.**  That it is settled which operations are carried out is the
same as that all orders carry out the same ones; and then all orders lead to the same balances. -/
theorem orders_agree (accs : Accounts) (ops : List Op) :
    ((∃ carried, Settled accs ops carried) ↔
      ∀ l l' : List Op, l.Perm ops → l'.Perm ops → carriedOut accs l = carriedOut accs l') ∧
    ((∃ carried, Settled accs ops carried) →
      ∀ l l' : List Op, l.Perm ops → l'.Perm ops →
        ∀ i, (applyAll accs l i).balance = (applyAll accs l' i).balance) := by
  refine ⟨⟨?_, fun h => ?_⟩, ?_⟩
  · rintro ⟨carried, h⟩ l l' hl hl'
    rw [h.carriedOut_eq hl, h.carriedOut_eq hl']
  · exact ⟨_, settled_of_carriedOut fun l hl => h l ops hl (List.Perm.refl ops)⟩
  · rintro ⟨carried, h⟩ l l' hl hl' i
    refine balance_eq_of_carriedOut ?_ i
    rw [h.carriedOut_eq hl, h.carriedOut_eq hl']

/-- A withdrawal of 5 from an empty account, before or after a deposit of 5. -/
theorem balances_differ :
    ¬∀ (accs : Accounts) (ops l l' : List Op), l.Perm ops → l'.Perm ops →
      ∀ i, (applyAll accs l i).balance = (applyAll accs l' i).balance := by
  intro h
  have hfirst := h (fun _ => ⟨"", 0⟩) [.withdraw .first 5, .deposit .first 5]
    [.withdraw .first 5, .deposit .first 5] [.deposit .first 5, .withdraw .first 5]
    (List.Perm.refl _) (List.Perm.swap _ _ _) .first
  exact absurd hfirst (by decide)

end Lock.Bend
