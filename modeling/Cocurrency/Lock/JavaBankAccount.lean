/-
# `wait` and `notifyAll` (`java/shared_memory_lock/BankAccount.java`)

`deposit`, `withdraw` and `getBalance` are `synchronized`: threads that call them are those of a
monitor, with `notifyAll` before the lock is released.  Of the amounts, which are doubles, nothing
is assumed but their order and that taking away what is not negative does not add, which leaves out
NaN and the infinities.  Sums of amounts (`net`) are taken in exact arithmetic, where doubles round.

`deposit` notifies whenever it adds anything.  `withdraw` never does, and does not check its amount:
with a negative one it adds, and nobody is woken up.

* `monitor_sound` : calls are atomic, every run ends, and without negative withdrawals a run ends
  only with all calls returned or waiting for money that is not there;
* `asleep_for_ever` : with a negative one a thread may sleep for ever with the money there;
* `demo_completes` : in exact arithmetic, threads that only deposit and threads that only withdraw
  what is covered all return.
-/
import Cocurrency.Lib.MonitorHalts
import Mathlib.Algebra.Order.Group.Defs
import Mathlib.Algebra.Order.Ring.Int
import Mathlib.Data.Fintype.BigOperators

namespace Lock

namespace JavaBankAccount

open Monitor (Section Instr Atomic Deed deed)

/-- What a call returns; `getBalance` a balance. -/
inductive Result (α : Type*) where
  | deposited (amount : α)
  /-- The amount is not positive. -/
  | ignored
  | withdrew (amount : α)
  | balance (value : α)
  deriving DecidableEq

/-- The calls of the methods. -/
inductive Call (α : Type*) where
  | deposit (amount : α)
  | withdraw (amount : α)
  | getBalance
  deriving DecidableEq

section Calls

variable {α : Type*} [LinearOrder α] [Zero α] [Add α] [Sub α]

/-- `deposit`, which notifies after a deposit that is made. -/
def deposit (amount : α) : Section α (Result α) where
  guard _ := true
  body :=
    if amount > 0 then
      .access id fun balance => .access (fun _ => balance + amount) fun _ =>
        .done (.deposited amount)
    else .done .ignored
  notifies
    | .deposited _ => true
    | _ => false
  notifiesInside := true

/-- `wait` is called while `balance < amount`. -/
def withdraw (amount : α) : Section α (Result α) where
  guard balance := !decide (balance < amount)
  body :=
    .access id fun balance => .access (fun _ => balance - amount) fun _ => .done (.withdrew amount)
  notifies _ := false
  notifiesInside := true

omit [Zero α] [Add α] [Sub α] [LinearOrder α] in
/-- `getBalance`. -/
def getBalance : Section α (Result α) where
  guard _ := true
  body := .access id fun balance => .done (.balance balance)
  notifies _ := false
  notifiesInside := true

/-- The critical section of a call. -/
def Call.critical : Call α → Section α (Result α)
  | .deposit amount => JavaBankAccount.deposit amount
  | .withdraw amount => JavaBankAccount.withdraw amount
  | .getBalance => JavaBankAccount.getBalance

/-- The calls of a thread, one after the other. -/
def code (τ : Type*) : List (Call α) → Instr τ (List (Call α)) α (Result α)
  | [] => .finished
  | call :: calls => .locked call.critical fun _ => calls

/-- No withdrawal is negative. -/
def NonNegative (calls : List (Call α)) : Prop := ∀ amount, .withdraw amount ∈ calls → 0 ≤ amount

end Calls

section Sound

variable {τ α : Type*} [LinearOrder α] [Zero α] [Add α] [Sub α]

/-! ## The calls at once -/

omit [Sub α] in
/-- A deposit that is made. -/
theorem run_deposit {amount : α} (h : amount > 0) (balance : α) :
    (deposit amount).body.run balance = (.deposited amount, balance + amount) := by
  rw [deposit, if_pos h]
  rfl

omit [Sub α] in
/-- A deposit of nothing, or less. -/
theorem run_deposit_ignored {amount : α} (h : ¬ amount > 0) (balance : α) :
    (deposit amount).body.run balance = (.ignored, balance) := by
  rw [deposit, if_neg h]
  rfl

omit [Zero α] [Add α] in
/-- `withdraw` waits for the money. -/
theorem withdraw_guard {amount balance : α} :
    (withdraw amount).guard balance = true ↔ amount ≤ balance := by
  simp [withdraw]

/-- What is left of a thread without negative amounts has none, either. -/
theorem closed_nonNegative : Monitor.Closed (code (α := α) τ) NonNegative where
  locked k call next result hk hcode := by
    cases k with
    | nil => cases hcode
    | cons c calls =>
        cases hcode
        exact fun amount hmem => hk amount (List.mem_cons_of_mem c hmem)
  join k others next _ hcode := by cases k <;> cases hcode

/-- Without negative withdrawals only a deposit lets anybody go on. -/
theorem notifying (hsub : ∀ x amount : α, 0 ≤ amount → x - amount ≤ x) :
    Monitor.Notifying (code (α := α) τ) NonNegative := by
  intro k call next k' call' next' hk _ hcode hcode' v hguard hnotifies hafter
  cases k with
  | nil => cases hcode
  | cons c calls =>
      cases hcode
      cases c with
      | deposit amount =>
          by_cases hpos : amount > 0
          · rw [show (Call.deposit amount).critical = deposit amount from rfl,
              run_deposit hpos] at hnotifies
            cases hnotifies
          · rw [show (Call.deposit amount).critical = deposit amount from rfl,
              run_deposit_ignored hpos] at hafter
            exact hafter
      | getBalance => exact hafter
      | withdraw amount =>
          have hle : v - amount ≤ v := hsub v amount (hk amount List.mem_cons_self)
          cases k' with
          | nil => cases hcode'
          | cons c' calls' =>
              cases hcode'
              cases c' with
              | withdraw amount' =>
                  have henough : amount' ≤ v - amount := withdraw_guard.mp hafter
                  exact withdraw_guard.mpr (henough.trans hle)
              | deposit amount' => rfl
              | getBalance => rfl

variable [DecidableEq τ]

/-- The program. -/
def step : Monitor.State τ (List (Call α)) α (Result α) → τ →
    Option (Monitor.Event τ (Result α) × Monitor.State τ (List (Call α)) α (Result α)) :=
  Monitor.State.step (code τ)

/-- All threads are before their first call. -/
def start (initialBalance : α) (program : τ → List (Call α)) :
    Monitor.State τ (List (Call α)) α (Result α) :=
  .start initialBalance program

/-- The account, with each call at once. -/
def atomicStep : Atomic τ (List (Call α)) α → τ →
    Option (Deed τ (Result α) × Atomic τ (List (Call α)) α) :=
  Atomic.step (code τ)

/-- A call is made, and is over. -/
theorem atomicStep_cases {a a' : Atomic τ (List (Call α)) α} {t : τ} {d : Deed τ (Result α)}
    (h : atomicStep a t = some (d, a')) : ∃ call calls, a.control t = call :: calls ∧
      call.critical.guard a.shared = true ∧
      d = .returned t (call.critical.body.run a.shared).1 ∧
      a' = ⟨(call.critical.body.run a.shared).2, Function.update a.control t calls⟩ := by
  cases hcontrol : a.control t with
  | nil =>
      rw [atomicStep, Atomic.step, hcontrol] at h
      cases h
  | cons call calls =>
      have hcode : code τ (a.control t) = .locked call.critical fun _ => calls := by
        rw [hcontrol]
        rfl
      obtain ⟨hguard, hd, ha'⟩ := Atomic.step_locked hcode h
      exact ⟨call, calls, rfl, hguard, hd, ha'⟩

/-! ## Every run -/

/-- Every run of the atomic system comes to an end. -/
theorem halts_atomic [Fintype τ] (a : Atomic τ (List (Call α)) α) :
    Halts (atomicStep (τ := τ)) a := by
  -- the number of calls that are still to be made
  apply halts_of_measure (fun _ => True) (fun a => ∑ t, (a.control t).length) _ trivial
  intro a t d a' _ h
  obtain ⟨call, calls, hcontrol, -, -, rfl⟩ := atomicStep_cases h
  have hsum := Monitor.sum_update_add List.length a.control t calls
  rw [hcontrol, List.length_cons] at hsum
  refine ⟨trivial, ?_⟩
  show ∑ u, (Function.update a.control t calls u).length < ∑ u, (a.control u).length
  omega

/-- A call that is not possible is a withdrawal of what is not there. -/
theorem stuck_cases {a : Atomic τ (List (Call α)) α} {t : τ} (h : atomicStep a t = none) :
    a.control t = [] ∨
      ∃ amount calls, a.control t = .withdraw amount :: calls ∧ a.shared < amount := by
  cases hcontrol : a.control t with
  | nil => exact Or.inl rfl
  | cons call calls =>
      have hguard : call.critical.guard a.shared = false :=
        Atomic.guard_of_stuck (by rw [hcontrol]; rfl) h
      cases call with
      | deposit amount => cases hguard
      | getBalance => cases hguard
      | withdraw amount =>
          refine Or.inr ⟨amount, calls, rfl, ?_⟩
          by_contra hnot
          have htrue : (withdraw amount).guard a.shared = true :=
            withdraw_guard.mpr (not_lt.mp hnot)
          exact Bool.false_ne_true (hguard.symm.trans htrue)

/-- **The account as a monitor.**  Every run ends.  What the calls of a run do is what they do one
at a time; and if no withdrawal is negative, whoever sleeps unnotified while the lock is free waits
for money that is not there, or somebody is about to notify, and a run that cannot go on has all
calls returned except for such withdrawals. -/
theorem monitor_sound [Fintype τ] (hsub : ∀ x amount : α, 0 ≤ amount → x - amount ≤ x)
    (initialBalance : α) (program : τ → List (Call α)) :
    Halts step (start initialBalance program) ∧
    ∀ h s, Run step anyStep (start initialBalance program) h s →
      (∃ a, Run atomicStep anyStep (Atomic.start initialBalance program) (h.filterMap deed) a ∧
        (s.holder = none → s.shared = a.shared)) ∧
      ((∀ t, NonNegative (program t)) →
        (s.holder = none → ∀ t amount calls, (s.thread t).control = .withdraw amount :: calls →
          (s.thread t).phase = .asleep false → s.shared < amount ∨ s.Pending) ∧
        ((∀ t, step s t = none) → ∀ t, (s.thread t).control = [] ∨
          ∃ amount calls, (s.thread t).control = .withdraw amount :: calls ∧
            s.shared < amount)) := by
  refine ⟨Monitor.halts_start (halts_atomic _), fun h s hr => ⟨?_, fun hprogram => ?_⟩⟩
  · obtain ⟨a, hrun, hR⟩ := Monitor.run_atomic _ _ _ hr
    exact ⟨a, hrun, fun hfree => (hR.shared_of_free hfree).symm⟩
  · obtain ⟨a, -, hR, hawake⟩ :=
      Monitor.run_awake closed_nonNegative (notifying hsub) _ hprogram hr
    constructor
    · intro hfree t amount calls hcontrol hasleep
      have hcode : code τ (s.thread t).control = .locked (withdraw amount) fun _ => calls := by
        rw [hcontrol]
        rfl
      rcases hawake t _ _ hcode hasleep with hguard | hp
      · rw [hR.shared_of_free hfree] at hguard
        refine Or.inl (not_le.mp fun hle => ?_)
        rw [withdraw_guard.mpr hle] at hguard
        cases hguard
      · exact Or.inr hp
    · intro hstuck t
      obtain ⟨hshared, hcontrol, hstuck'⟩ := Monitor.State.stuck_atomic hR hawake hstuck
      rw [hcontrol t, hshared]
      exact stuck_cases (hstuck' t)

/-- `demonstrateProducerConsumer`. -/
def demo : Bool → List (Call ℤ)
  | true => List.replicate 5 (.deposit 200)
  | false => List.replicate 5 (.withdraw 150)

/-- The demo of the source, with an account that has nothing. -/
theorem monitor_sound_demo :
    Halts step (start 0 demo) ∧
    ∀ h s, Run step anyStep (start 0 demo) h s →
      (∃ a, Run atomicStep anyStep (Atomic.start 0 demo) (h.filterMap deed) a ∧
        (s.holder = none → s.shared = a.shared)) ∧
      ((∀ t, NonNegative (demo t)) →
        (s.holder = none → ∀ t amount calls, (s.thread t).control = .withdraw amount :: calls →
          (s.thread t).phase = .asleep false → s.shared < amount ∨ s.Pending) ∧
        ((∀ t, step s t = none) → ∀ t, (s.thread t).control = [] ∨
          ∃ amount calls, (s.thread t).control = .withdraw amount :: calls ∧
            s.shared < amount)) :=
  monitor_sound (fun x _ hle => sub_le_self x hle) 0 demo

end Sound

/-! ## A negative withdrawal -/

section Negative

variable {α : Type*} [LinearOrder α] [Zero α] [Add α] [Sub α]

/-- A thread that waits for `w`, and one that makes a withdrawal of `x`. -/
def waitAndWithdraw (w x : α) : Bool → List (Call α)
  | false => [.withdraw w]
  | true => [.withdraw x]

/-- A withdrawal that leaves as much as is waited for wakes nobody up. -/
theorem asleep_for_ever {b w x : α} (hw : b < w) (hx : x ≤ b) (hmoney : w ≤ b - x) :
    ∃ h s, Run step anyStep (start b (waitAndWithdraw w x)) h s ∧ (∀ t, step s t = none) ∧
      (s.thread false).control = [.withdraw w] ∧ w ≤ s.shared := by
  have hwaits : Run step anyStep (start b (waitAndWithdraw w x)) [.acquired false, .waits false]
      ⟨b, none, Function.update (fun t => ⟨waitAndWithdraw w x t, .outside⟩) false
        ⟨[.withdraw w], .asleep false⟩⟩ := by
    apply run_of_replay step [false, false]
    have hguard : (withdraw w).guard b = false := by simpa [withdraw] using hw
    simp [replay, step, start, waitAndWithdraw, Monitor.State.step, Monitor.State.start, code,
      Monitor.State.stepLocked, Monitor.State.acquire, Monitor.State.inPhase,
      Monitor.State.setThread, Call.critical, hguard]
  obtain ⟨h, thread', -, hr, htrue, hfalse⟩ := Monitor.State.turn (t := true)
    (show code Bool [.withdraw x] = .locked (withdraw x) fun _ => [] from rfl) b
    (Function.update (fun t => ⟨waitAndWithdraw w x t, .outside⟩) false
        ⟨[.withdraw w], .asleep false⟩) rfl (withdraw_guard.mpr hx)
  have hasleep : thread' false = ⟨[.withdraw w], .asleep false⟩ := hfalse false (by simp)
  refine ⟨_, _, hwaits.trans hr, fun t => ?_, ?_, hmoney⟩
  · cases t with
    | false => simp [step, Monitor.State.step, hasleep, code, Monitor.State.stepLocked]
    | true => simp [step, Monitor.State.step, htrue, code]
  · show (thread' false).control = _
    rw [hasleep]

/-- A thread that waits for 150 is not notified by a withdrawal of -200, and sleeps for ever. -/
theorem asleep_for_ever_two_hundred :
    ∃ h s, Run step anyStep (start (100 : ℤ) (waitAndWithdraw 150 (-200))) h s ∧
      (∀ t, step s t = none) ∧ (s.thread false).control = [.withdraw 150] ∧ 150 ≤ s.shared :=
  asleep_for_ever (by decide) (by decide) (by decide)

end Negative

/-! ## Producers and consumers -/

section Demo

variable {τ α : Type*} [AddCommGroup α] [LinearOrder α] [IsOrderedAddMonoid α]

/-- What a call adds to the balance. -/
def Call.net : Call α → α
  | .deposit amount => if amount > 0 then amount else 0
  | .withdraw amount => -amount
  | .getBalance => 0

/-- What the calls change in all, in exact arithmetic. -/
def net (calls : List (Call α)) : α := (calls.map Call.net).sum

/-- Deposits only. -/
def Produces (calls : List (Call α)) : Prop := ∀ c ∈ calls, ∃ amount, c = .deposit amount

/-- Withdrawals only, none of them negative. -/
def Consumes (calls : List (Call α)) : Prop :=
  ∀ c ∈ calls, ∃ amount, c = .withdraw amount ∧ 0 ≤ amount

omit [IsOrderedAddMonoid α] in
/-- What a call changes when it is made. -/
theorem run_net (call : Call α) (balance : α) :
    (call.critical.body.run balance).2 = balance + call.net := by
  cases call with
  | deposit amount =>
      by_cases hpos : amount > 0
      · rw [show (Call.deposit amount).critical = deposit amount from rfl, run_deposit hpos,
          Call.net, if_pos hpos]
      · rw [show (Call.deposit amount).critical = deposit amount from rfl,
          run_deposit_ignored hpos, Call.net, if_neg hpos, add_zero]
  | withdraw amount => exact sub_eq_add_neg balance amount
  | getBalance => exact (add_zero balance).symm

omit [IsOrderedAddMonoid α] in
/-- One call and the others. -/
theorem net_cons (call : Call α) (calls : List (Call α)) :
    net (call :: calls) = call.net + net calls := by
  simp [net]

/-- Threads that only withdraw. -/
theorem Consumes.net_nonpos {calls : List (Call α)} (h : Consumes calls) : net calls ≤ 0 := by
  induction calls with
  | nil => exact le_refl 0
  | cons c calls ih =>
      obtain ⟨amount, rfl, hle⟩ := h c List.mem_cons_self
      rw [net_cons]
      exact add_nonpos (neg_nonpos.mpr hle) (ih fun c hc => h c (List.mem_cons_of_mem _ hc))

/-- Where a thread of the demonstration is. -/
def InDemo (calls : List (Call α)) : Prop := Produces calls ∨ Consumes calls

omit [IsOrderedAddMonoid α] in
/-- What is left of a thread of the demo. -/
theorem InDemo.tail {call : Call α} {calls : List (Call α)} (h : InDemo (call :: calls)) :
    InDemo calls := by
  rcases h with h | h
  · exact Or.inl fun c hc => h c (List.mem_cons_of_mem _ hc)
  · exact Or.inr fun c hc => h c (List.mem_cons_of_mem _ hc)

omit [IsOrderedAddMonoid α] in
/-- No amount of the demo is negative. -/
theorem InDemo.nonNegative {calls : List (Call α)} (h : InDemo calls) : NonNegative calls := by
  intro amount hmem
  rcases h with h | h
  · obtain ⟨amount', heq⟩ := h _ hmem
    cases heq
  · obtain ⟨amount', heq, hle⟩ := h _ hmem
    cases heq
    exact hle

/-- Who withdraws only, and is at a withdrawal, has at least that to withdraw. -/
theorem InDemo.net_le {amount : α} {calls : List (Call α)}
    (h : InDemo (.withdraw amount :: calls)) : net (.withdraw amount :: calls) ≤ -amount := by
  rcases h with h | h
  · obtain ⟨amount', heq⟩ := h _ List.mem_cons_self
    cases heq
  · have hrest : Consumes calls := fun c hc => h c (List.mem_cons_of_mem _ hc)
    rw [net_cons]
    exact add_le_of_nonpos_right hrest.net_nonpos

variable [Fintype τ] [DecidableEq τ]

/-- The balance, with what is still to be added and taken away. -/
def worth (a : Atomic τ (List (Call α)) α) : α := a.shared + ∑ t, net (a.control t)

omit [IsOrderedAddMonoid α] in
/-- A call moves its worth into the account. -/
theorem worth_step {a a' : Atomic τ (List (Call α)) α} {t : τ} {d : Deed τ (Result α)}
    (h : atomicStep a t = some (d, a')) : worth a' = worth a := by
  obtain ⟨call, calls, hcontrol, -, -, rfl⟩ := atomicStep_cases h
  have hsum := Monitor.sum_update_add net a.control t calls
  rw [hcontrol, net_cons, ← add_assoc] at hsum
  have hsum' := add_right_cancel hsum
  show (call.critical.body.run a.shared).2 + ∑ u, net (Function.update a.control t calls u) =
    a.shared + ∑ u, net (a.control u)
  rw [run_net, ← hsum', add_assoc, add_comm call.net]

/-- What is covered is not waited for. -/
theorem all_returned {a : Atomic τ (List (Call α)) α} (hdemo : ∀ t, InDemo (a.control t))
    (hcovered : 0 ≤ worth a) (hstuck : ∀ t, atomicStep a t = none) (t : τ) :
    a.control t = [] := by
  rcases stuck_cases (hstuck t) with hnil | ⟨amount, calls, hcontrol, hlt⟩
  · exact hnil
  · exfalso
    have hnonpos : ∀ u, net (a.control u) ≤ 0 := by
      intro u
      rcases stuck_cases (hstuck u) with hnil | ⟨amount', calls', hcontrol', -⟩
      · rw [hnil]
        exact le_refl 0
      · have hu := hdemo u
        rw [hcontrol'] at hu ⊢
        exact hu.net_le.trans (neg_nonpos.mpr (hu.nonNegative amount' List.mem_cons_self))
    have ht : net (a.control t) ≤ -amount := by
      have hdemo' := hdemo t
      rw [hcontrol] at hdemo' ⊢
      exact hdemo'.net_le
    have hsum : ∑ u, net (a.control u) ≤ -amount := by
      rw [← Finset.add_sum_erase _ (fun u => net (a.control u)) (Finset.mem_univ t)]
      calc net (a.control t) + ∑ u ∈ Finset.univ.erase t, net (a.control u)
          ≤ net (a.control t) := add_le_of_nonpos_right (Finset.sum_nonpos fun u _ => hnonpos u)
        _ ≤ -amount := ht
    have hneg : worth a < 0 := by
      calc worth a ≤ a.shared + -amount := add_le_add_right hsum a.shared
        _ = a.shared - amount := (sub_eq_add_neg _ _).symm
        _ < 0 := sub_neg.mpr hlt
    exact absurd hcovered (not_le.mpr hneg)

/-- **Producers and consumers.**  If some threads only deposit, the others only withdraw, and what
there is covers all withdrawals, then every run ends with all calls returned and the balance that
the amounts add up to. -/
theorem demo_completes (initialBalance : α) (program : τ → List (Call α))
    (hprogram : ∀ t, Produces (program t) ∨ Consumes (program t))
    (hcovered : 0 ≤ initialBalance + ∑ t, net (program t)) :
    Halts step (start initialBalance program) ∧
    ∀ h s, Run step anyStep (start initialBalance program) h s → (∀ t, step s t = none) →
      (∀ t, (s.thread t).control = []) ∧
      s.shared = initialBalance + ∑ t, net (program t) := by
  refine ⟨Monitor.halts_start (halts_atomic _), fun h s hr hstuck => ?_⟩
  have hsub : ∀ x amount : α, 0 ≤ amount → x - amount ≤ x := fun x amount hle =>
    sub_le_self x hle
  obtain ⟨a, hrun, hR, hawake⟩ := Monitor.run_awake closed_nonNegative (notifying hsub) _
    (fun t => InDemo.nonNegative (hprogram t)) hr
  obtain ⟨hdemo, hworth⟩ : (∀ t, InDemo (a.control t)) ∧
      worth a = initialBalance + ∑ t, net (program t) := by
    apply hrun.invariant (fun _ a => (∀ t, InDemo (a.control t)) ∧
      worth a = initialBalance + ∑ t, net (program t)) ⟨hprogram, rfl⟩
    rintro d a t e a' ⟨hdemo, hworth⟩ _ hstep
    refine ⟨fun u => ?_, (worth_step hstep).trans hworth⟩
    obtain ⟨call, calls, hcontrol, -, -, rfl⟩ := atomicStep_cases hstep
    by_cases hu : u = t
    · rw [hu, Atomic.control_self]
      exact InDemo.tail (hcontrol ▸ hdemo t)
    · rw [Atomic.control_of_ne hu]
      exact hdemo u
  obtain ⟨hshared, hcontrol, hstuck'⟩ := Monitor.State.stuck_atomic hR hawake hstuck
  have hall := all_returned hdemo (hworth ▸ hcovered) hstuck'
  refine ⟨fun t => (hcontrol t).trans (hall t), ?_⟩
  rw [hshared, ← hworth, worth, Finset.sum_eq_zero fun t _ => by rw [hall t]; rfl, add_zero]

/-- The demo comes to its end with what has been paid in and out. -/
theorem demo_completes_main :
    Halts step (start 0 demo) ∧
    ∀ h s, Run step anyStep (start 0 demo) h s → (∀ t, step s t = none) →
      (∀ t, (s.thread t).control = []) ∧ s.shared = 0 + ∑ t, net (demo t) :=
  demo_completes 0 demo
    (fun t => match t with
      | true => Or.inl fun _ hc => ⟨200, List.eq_of_mem_replicate hc⟩
      | false => Or.inr fun _ hc => ⟨150, List.eq_of_mem_replicate hc, by decide⟩)
    (by decide)

end Demo

end JavaBankAccount

end Lock
