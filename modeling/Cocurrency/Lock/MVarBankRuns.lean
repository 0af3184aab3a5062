/-
# Runs of the accounts in MVars (`haskell/shared_memory/BankAccount.hs`)

* `bank_correct` : nothing gets stuck, no money is lost, and no account is overdrawn;
* `main_not_conserved` : so the total that the demo prints is never the one that it began with.
-/
import Cocurrency.Lock.MVarBankMain

namespace Lock

namespace MVarBank

/-! ## No account is overdrawn -/

section NonNeg

variable {α τ : Type*}

/-- The thread has no negative amount in hand or to come. -/
def Control.NonNeg : Control α → Prop
  | .calls rest => ∀ c ∈ rest, 0 ≤ c.amount.toInt
  | .putting _ balance rest => 0 ≤ balance.toInt ∧ ∀ c ∈ rest, 0 ≤ c.amount.toInt
  | .puttingBack _ balance _ _ => 0 ≤ balance.toInt
  | _ => True

/-- No balance and no amount is negative. -/
structure NonNeg (s : State α τ) : Prop where
  stored : ∀ a bal, s.content (.account a) = some bal → 0 ≤ bal.toInt
  control : ∀ t, (s.control t).NonNeg

/-- The deposits to come are not negative. -/
theorem deposits_nonneg {rest : List (Call α)} (h : ∀ c ∈ rest, 0 ≤ c.amount.toInt) :
    0 ≤ deposits Int64.toInt rest := by
  apply List.sum_nonneg
  intro x hx
  obtain ⟨c, hc, rfl⟩ := List.mem_map.mp hx
  cases c with
  | deposit acc amount => exact h _ hc
  | transfer src dst amount => exact le_refl 0

/-- Nor is what it has in hand. -/
theorem Control.NonNeg.money {k : Control α} (h : k.NonNeg) : 0 ≤ k.money Int64.toInt := by
  cases k with
  | calls rest => exact deposits_nonneg h
  | putting acc balance rest => exact add_nonneg h.1 (deposits_nonneg h.2)
  | puttingBack acc balance rest total => exact h
  | _ => exact le_refl 0

/-- Nor is what is stored. -/
theorem NonNeg.stored_nonneg {s : State α τ} (h : NonNeg s) (a : α) :
    0 ≤ MVarBank.stored Int64.toInt s a := by
  rw [MVarBank.stored]
  cases hx : s.content (.account a) with
  | none => exact le_refl 0
  | some bal => exact h.stored a bal hx

variable [DecidableEq α] [DecidableEq τ] {accounts : List α} {s s' : State α τ} {t : Option τ}

/-- An account is set to what is not negative. -/
theorem NonNeg.set (h : NonNeg s) {acc : α} {x : Option Int64} {k : Control α}
    (hx : ∀ bal, x = some bal → 0 ≤ bal.toInt) (hk : k.NonNeg) :
    NonNeg (s.set (.account acc) x t k) where
  stored a bal ha := by
    by_cases hacc : a = acc
    · subst hacc
      rw [MVar.State.set_content_self] at ha
      exact hx bal ha
    · have hne : Var.account a ≠ Var.account acc := fun heq => hacc (Var.account.inj heq)
      rw [MVar.State.set_content_of_ne hne] at ha
      exact h.stored a bal ha
  control u := by
    by_cases hu : u = t
    · subst hu
      rwa [MVar.State.set_control_self]
    · rw [MVar.State.set_control_of_ne hu]
      exact h.control u

/-- The variable `done` is set. -/
theorem NonNeg.set_done (h : NonNeg s) {x : Option Unit} {k : Control α} (hk : k.NonNeg) :
    NonNeg (s.set .done x t k) where
  stored a bal ha := by
    have hne : Var.account a ≠ Var.done := nofun
    rw [MVar.State.set_content_of_ne hne] at ha
    exact h.stored a bal ha
  control u := by
    by_cases hu : u = t
    · subst hu
      rwa [MVar.State.set_control_self]
    · rw [MVar.State.set_control_of_ne hu]
      exact h.control u

/-- No step makes a balance negative, as long as it is exact. -/
theorem NonNeg.moves (h : NonNeg s) (hexact : Exact Int64.toInt s t)
    (hs : Moves accounts s t s') : NonNeg s' := by
  have ht := h.control t
  cases hs with
  | deposits acc amount rest bal hcontrol hcontent =>
      rw [hcontrol] at ht
      have hbal := h.stored acc bal hcontent
      have hamount : 0 ≤ amount.toInt := ht _ List.mem_cons_self
      refine h.set nofun ⟨?_, fun c hc => ht c (List.mem_cons_of_mem _ hc)⟩
      rw [hexact.add acc amount rest bal hcontrol hcontent]
      exact add_nonneg hbal hamount
  | withdraws src dst amount rest bal hcontrol hcontent hle =>
      rw [hcontrol] at ht
      refine h.set nofun ⟨?_, fun c hc => ?_⟩
      · rw [hexact.sub src dst amount rest bal hcontrol hcontent hle]
        exact Int.sub_nonneg_of_le (Int64.le_iff_toInt_le.mp hle)
      · rcases List.mem_cons.mp hc with rfl | hc
        · exact ht (.transfer src dst amount) List.mem_cons_self
        · exact ht c (List.mem_cons_of_mem _ hc)
  | fails src dst amount rest bal hcontrol hcontent =>
      rw [hcontrol] at ht
      exact h.set nofun ⟨h.stored src bal hcontent, fun c hc => ht c (List.mem_cons_of_mem _ hc)⟩
  | puts acc balance rest hcontrol =>
      rw [hcontrol] at ht
      refine h.set (fun bal hbal => ?_) ht.2
      rw [← Option.some.inj hbal]
      exact ht.1
  | ends hcontrol hcontent => exact h.set_done trivial
  | awaits more hcontrol hcontent => exact h.set_done (by cases more <;> exact trivial)
  | reads acc rest total bal hcontrol hcontent => exact h.set nofun (h.stored acc bal hcontent)
  | putsBack acc balance rest total hcontrol =>
      rw [hcontrol] at ht
      refine h.set (fun bal hbal => ?_) trivial
      rw [← Option.some.inj hbal]
      exact ht

variable [Fintype α] [Fintype τ]

omit [DecidableEq α] [DecidableEq τ] in
/-- Nobody has more than there is. -/
theorem NonNeg.le_allMoney (h : NonNeg s) (a : α) (t : Option τ) :
    MVarBank.stored Int64.toInt s a + (s.control t).money Int64.toInt ≤
      allMoney Int64.toInt s := by
  apply add_le_add
  · exact Finset.single_le_sum (fun a _ => h.stored_nonneg a) (Finset.mem_univ a)
  · exact Finset.single_le_sum (f := fun t => (s.control t).money Int64.toInt)
      (fun u _ => (h.control u).money) (Finset.mem_univ t)

omit [DecidableEq α] [DecidableEq τ] in
/-- While there is less than `2 ^ 63`, no addition wraps around. -/
theorem NonNeg.exact (h : NonNeg s) (hlt : allMoney Int64.toInt s < 2 ^ 63) :
    Exact Int64.toInt s t where
  add acc amount rest bal hcontrol hcontent := by
    have hle := h.le_allMoney acc t
    have ht := h.control t
    have hbal := h.stored acc bal hcontent
    rw [hcontrol] at hle ht
    have hamount : 0 ≤ amount.toInt := ht _ List.mem_cons_self
    have hrest : 0 ≤ deposits Int64.toInt rest :=
      deposits_nonneg fun c hc => ht c (List.mem_cons_of_mem _ hc)
    rw [MVarBank.stored, hcontent, Control.money, deposits_deposit] at hle
    have hsum : bal.toInt + (amount.toInt + deposits Int64.toInt rest) < 2 ^ 63 := hle.trans_lt hlt
    exact (FixedWidth.toInt_add_eq_iff hamount).mpr (by omega)
  sub src dst amount rest bal hcontrol hcontent hle := by
    have ht := h.control t
    rw [hcontrol] at ht
    have hamount : 0 ≤ amount.toInt := ht (.transfer src dst amount) List.mem_cons_self
    exact FixedWidth.toInt_sub hamount (Int64.le_iff_toInt_le.mp hle)

end NonNeg

/-! ## Every run -/

section Runs

variable {α τ : Type*}

/-- How many steps a call has at most. -/
def Call.toDo : Call α → ℕ
  | .deposit _ _ => 2
  | .transfer _ _ _ => 4

/-- The number of steps that are to come, at most. -/
def Control.toDo (accounts : List α) : Control α → ℕ
  | .calls rest => (rest.map Call.toDo).sum + 1
  | .putting _ _ rest => (rest.map Call.toDo).sum + 2
  | .ended => 0
  | .waiting more => more + 1 + 2 * accounts.length
  | .reading rest _ => 2 * rest.length
  | .puttingBack _ _ rest _ => 2 * rest.length + 1

/-- `main` has so many steps left. -/
theorem toDo_await (accounts : List α) (more : ℕ) :
    (await accounts more).toDo accounts = more + 2 * accounts.length := by
  cases more with
  | zero => simp [await, Control.toDo]
  | succ more => rfl

variable [DecidableEq α] [DecidableEq τ] {accounts : List α} {s s' : State α τ} {t : Option τ}

/-- A step leaves less to be done. -/
theorem toDo_moves (hs : Moves accounts s t s') :
    ∃ v x k, s' = s.set v x t k ∧ k.toDo accounts < (s.control t).toDo accounts := by
  cases hs with
  | deposits acc amount rest bal hcontrol hcontent =>
      refine ⟨_, _, _, rfl, ?_⟩
      rw [hcontrol]
      simp only [Control.toDo, List.map_cons, List.sum_cons, Call.toDo]
      omega
  | withdraws src dst amount rest bal hcontrol hcontent hle =>
      refine ⟨_, _, _, rfl, ?_⟩
      rw [hcontrol]
      simp only [Control.toDo, List.map_cons, List.sum_cons, Call.toDo]
      omega
  | fails src dst amount rest bal hcontrol hcontent =>
      refine ⟨_, _, _, rfl, ?_⟩
      rw [hcontrol]
      simp only [Control.toDo, List.map_cons, List.sum_cons, Call.toDo]
      omega
  | puts acc balance rest hcontrol =>
      refine ⟨_, _, _, rfl, ?_⟩
      rw [hcontrol]
      exact Nat.lt_succ_self _
  | ends hcontrol hcontent =>
      refine ⟨_, _, _, rfl, ?_⟩
      rw [hcontrol]
      exact Nat.zero_lt_one
  | awaits more hcontrol hcontent =>
      refine ⟨_, _, _, rfl, ?_⟩
      rw [hcontrol, toDo_await, Control.toDo]
      omega
  | reads acc rest total bal hcontrol hcontent =>
      refine ⟨_, _, _, rfl, ?_⟩
      rw [hcontrol]
      simp only [Control.toDo, List.length_cons]
      omega
  | putsBack acc balance rest total hcontrol =>
      refine ⟨_, _, _, rfl, ?_⟩
      rw [hcontrol]
      exact Nat.lt_succ_self _

variable [Fintype τ]

/-- Every run comes to an end. -/
theorem halts (accounts : List α) (s : State α τ) : Halts (step accounts) s := by
  apply halts_of_measure (fun _ => True) (fun s => ∑ t, (s.control t).toDo accounts) _ trivial
  intro s t e s' _ hs
  obtain ⟨v, x, k, rfl, hlt⟩ := toDo_moves (moves_step hs)
  have hsum := Monitor.sum_update_add (Control.toDo accounts) s.control t k
  refine ⟨trivial, ?_⟩
  show ∑ u, (Function.update s.control t k u).toDo accounts < ∑ u, (s.control u).toDo accounts
  omega

variable [Fintype α]

omit [DecidableEq α] [DecidableEq τ] [Fintype α] in
/-- At the start nothing is negative. -/
theorem nonNeg_start {initial : α → Int64} {program : τ → List (Call α)}
    (hinitial : ∀ a, 0 ≤ (initial a).toInt)
    (hamount : ∀ i, ∀ c ∈ program i, 0 ≤ c.amount.toInt) :
    NonNeg (start accounts initial program) where
  stored a bal ha := Option.some.inj ha ▸ hinitial a
  control t := by
    cases t with
    | some i => exact hamount i
    | none =>
        show (await accounts _).NonNeg
        cases Fintype.card τ <;> exact trivial

/-- No balance gets negative. -/
theorem nonNeg_run {initial : α → Int64} {program : τ → List (Call α)}
    (hinitial : ∀ a, 0 ≤ (initial a).toInt) (hamount : ∀ i, ∀ c ∈ program i, 0 ≤ c.amount.toInt)
    (hlt : inAll Int64.toInt initial program < 2 ^ 63)
    {h : List (MVar.Event (Option τ) (Var α) Value)}
    (hr : Run (step accounts) anyStep (start accounts initial program) h s) :
    NonNeg s ∧ allMoney Int64.toInt s = inAll Int64.toInt initial program := by
  have hall : MVar.Lends.Ok (· ≠ Var.done) held s ∧ NonNeg s ∧
      allMoney Int64.toInt s = inAll Int64.toInt initial program := by
    refine hr.invariant (fun _ s => MVar.Lends.Ok (· ≠ Var.done) held s ∧ NonNeg s ∧
      allMoney Int64.toInt s = inAll Int64.toInt initial program) ?_ ?_
    · exact ⟨locks_start accounts initial program, nonNeg_start hinitial hamount,
        allMoney_start _ accounts initial program⟩
    · rintro h s t e s' ⟨hlocks, hnonneg, hmoney⟩ _ hs
      have hmoves := moves_step hs
      have hexact : Exact Int64.toInt s t := hnonneg.exact (hmoney ▸ hlt)
      exact ⟨(lends accounts).step hlocks hs, hnonneg.moves hexact hmoves,
        (money_moves Int64.toInt hexact (empty_of_held hlocks) hmoves).trans hmoney⟩
  exact hall.2

/-- What holds in every state of every run. -/
theorem ok_run (hnodup : accounts.Nodup) (hall : ∀ a, a ∈ accounts) {initial : α → Int64}
    {program : τ → List (Call α)} {h : List (MVar.Event (Option τ) (Var α) Value)}
    (hr : Run (step accounts) anyStep (start accounts initial program) h s) :
    Ok (inAll bits initial program) s :=
  hr.invariant (fun _ s => Ok (inAll bits initial program) s)
    (Ok.start hnodup hall initial program) fun _ _ _ _ _ h _ hs => h.step hnodup hall hs

/-- **The bank.**  No run goes on for ever.  The money in the accounts and with the threads is what
there has been in the beginning and what is still to be deposited; if that is below `2 ^ 63` and no
amount is negative, no account is overdrawn.  Where a run cannot go on all threads have ended, and
`main` has read a total that the deposits have been added to. -/
theorem bank_correct (accounts : List α) (hnodup : accounts.Nodup) (hall : ∀ a, a ∈ accounts)
    (initial : α → Int64) (program : τ → List (Call α)) :
    Halts (step accounts) (start accounts initial program) ∧
    ∀ h s, Run (step accounts) anyStep (start accounts initial program) h s →
      allMoney bits s = inAll bits initial program ∧
      ((∀ a, 0 ≤ (initial a).toInt) → (∀ i, ∀ c ∈ program i, 0 ≤ c.amount.toInt) →
        inAll Int64.toInt initial program < 2 ^ 63 →
          ∀ a bal, s.content (.account a) = some bal → 0 ≤ bal.toInt) ∧
      ((∀ t, step accounts s t = none) →
        (∀ i, s.control (some i) = .ended) ∧
        ∃ total, s.control none = .reading [] total ∧
          bits total = ∑ a, bits (initial a) + ∑ i, deposits bits (program i)) := by
  refine ⟨halts accounts _, fun h s hr => ?_⟩
  have hok := ok_run hnodup hall hr
  refine ⟨hok.money, fun hinitial hamount hlt a bal ha => ?_, hok.stuck⟩
  exact (nonNeg_run hinitial hamount hlt hr).1.stored a bal ha

end Runs

/-! ## The demo -/

/-- The calls of a forked thread, where `randomRIO` has drawn the amounts. -/
def demoCalls (amount : Fin 3 → Fin 91) (amt : Fin 3 → Fin 31) : List (Call (Fin 2)) :=
  ((List.finRange 3).map fun j => .deposit 0 (.ofNat (10 + amount j))) ++
    (List.finRange 3).map fun j => .transfer 0 1 (.ofNat (20 + amt j))

/-- The accounts A and B. -/
def demoInitial (a : Fin 2) : Int64 := if a = 0 then 1000 else 500

/-- The deposits of two pieces. -/
theorem deposits_append {α M : Type*} [AddCommGroup M] (m : Int64 → M)
    (calls more : List (Call α)) :
    deposits m (calls ++ more) = deposits m calls + deposits m more := by
  rw [deposits, List.map_append, List.sum_append]
  rfl

/-- What a list of deposits pays in. -/
theorem deposits_map_deposit {α β : Type*} (acc : α) (f : β → ℕ) (l : List β) :
    deposits bits (l.map fun j => .deposit acc (.ofNat (f j))) =
      (((l.map f).sum : ℕ) : BitVec 64) := by
  induction l with
  | nil => rfl
  | cons j l ih =>
      rw [List.map_cons, deposits_deposit, ih, List.map_cons, List.sum_cons, Nat.cast_add]
      rfl

/-- A list of transfers pays nothing in. -/
theorem deposits_map_transfer {α β : Type*} (src dst : α) (f : β → Int64) (l : List β) :
    deposits bits (l.map fun j => .transfer src dst (f j)) = 0 := by
  induction l with
  | nil => rfl
  | cons j l ih => rw [List.map_cons, deposits_transfer, ih]

/-- What the threads of the demo pay in. -/
theorem deposits_demoCalls (amount : Fin 3 → Fin 91) (amt : Fin 3 → Fin 31) :
    deposits bits (demoCalls amount amt) = ((∑ j, (10 + (amount j).val) : ℕ) : BitVec 64) := by
  rw [demoCalls, deposits_append, deposits_map_transfer, add_zero,
    deposits_map_deposit 0 fun j => 10 + (amount j).val, Fin.sum_univ_def]

/-- Every thread draws the least amounts. -/
theorem bank_correct_demo :
    Halts (step [0, 1]) (start [0, 1] demoInitial fun _ : Fin 5 => demoCalls 0 0) ∧
    ∀ h s, Run (step [0, 1]) anyStep (start [0, 1] demoInitial fun _ : Fin 5 => demoCalls 0 0) h s →
      allMoney bits s = inAll bits demoInitial (fun _ : Fin 5 => demoCalls 0 0) ∧
      ((∀ a, 0 ≤ (demoInitial a).toInt) →
        (∀ _ : Fin 5, ∀ c ∈ demoCalls 0 0, 0 ≤ c.amount.toInt) →
        inAll Int64.toInt demoInitial (fun _ : Fin 5 => demoCalls 0 0) < 2 ^ 63 →
          ∀ a bal, s.content (.account a) = some bal → 0 ≤ bal.toInt) ∧
      ((∀ t, step [0, 1] s t = none) →
        (∀ i, s.control (some i) = .ended) ∧
        ∃ total, s.control none = .reading [] total ∧
          bits total = ∑ a, bits (demoInitial a) + ∑ _ : Fin 5, deposits bits (demoCalls 0 0)) :=
  bank_correct [0, 1] (by decide) (by decide) demoInitial fun _ => demoCalls 0 0

/-- Five threads, with three deposits and three transfers each: the final total is never the initial
one. -/
theorem main_not_conserved (amount : Fin 5 → Fin 3 → Fin 91) (amt : Fin 5 → Fin 3 → Fin 31) :
    Halts (step [0, 1]) (start [0, 1] demoInitial fun i => demoCalls (amount i) (amt i)) ∧
    ∀ h s, Run (step [0, 1]) anyStep
        (start [0, 1] demoInitial fun i => demoCalls (amount i) (amt i)) h s →
      (∀ t, step [0, 1] s t = none) →
        ∃ total, s.control none = .reading [] total ∧
          total = .ofNat (1500 + ∑ i, ∑ j, (10 + (amount i j).val)) ∧
          total ≠ demoInitial 0 + demoInitial 1 := by
  refine ⟨halts _ _, fun h s hr hstuck => ?_⟩
  obtain ⟨-, total, hcontrol, htotal⟩ := (ok_run (by decide) (by decide) hr).stuck hstuck
  have hexact : total = .ofNat (1500 + ∑ i, ∑ j, (10 + (amount i j).val)) := by
    apply Int64.toBitVec_inj.mp
    rw [Int64.toBitVec_ofNat']
    show bits total = _
    rw [htotal, inAll, Finset.sum_congr rfl fun i _ => deposits_demoCalls (amount i) (amt i),
      ← Nat.cast_sum, BitVec.ofNat_add]
    rfl
  have hlow : 10 ≤ ∑ i, ∑ j, (10 + (amount i j).val) :=
    (Nat.le_add_right 10 _).trans <|
      (Finset.single_le_sum (f := fun j => 10 + (amount 0 j).val) (fun j _ => Nat.zero_le _)
        (Finset.mem_univ 0)).trans
      (Finset.single_le_sum (f := fun i => ∑ j, (10 + (amount i j).val))
        (fun i _ => Nat.zero_le _) (Finset.mem_univ 0))
  have hhigh : ∑ i, ∑ j, (10 + (amount i j).val) ≤ 1500 := by
    calc _ ≤ ∑ _ : Fin 5, ∑ _ : Fin 3, 100 := Finset.sum_le_sum fun i _ =>
          Finset.sum_le_sum fun j _ => by
            have hj := (amount i j).isLt
            omega
      _ = 1500 := rfl
  refine ⟨total, hcontrol, hexact, fun heq => ?_⟩
  have hint := congrArg Int64.toInt (hexact.symm.trans heq)
  rw [Int64.toInt_ofNat_of_lt (by omega)] at hint
  have hinit : (demoInitial 0 + demoInitial 1).toInt = 1500 := rfl
  omega

end MVarBank

end Lock
