/-
# `printStatement` (`scala/shared_memory/BankAccount.scala`)

`printStatement` has the monitor of the ledger while it prints, and takes that of each account for
its line only.  A transfer takes the monitors of its two accounts, and none of the ledger.

* `printStatement_torn` : so the statement is no snapshot.
-/
import Cocurrency.Lock.ScalaTransfers

namespace Lock

namespace ScalaBank

open Synchronized (Block)

/-! ## The lines -/

section Statement

variable {τ ι α : Type*} [DecidableEq τ] [DecidableEq ι] [Add α] {accountId : ι → String}
  {s : Bank τ ι α} {t : τ}

/-- `printStatement` prints the lines of some accounts, while the others stand still. -/
theorem alone_printLines (accounts later : List ι) (lines : List (String × α)) (total : α)
    (hok : Synchronized.HolderOk s) {todo : List (Prog ι α)}
    (hth : s.thread t =
      ⟨[.ledger], some (printLines accountId (accounts ++ later) lines total), todo⟩)
    (hfree : ∀ a u, u ≠ t → .account a ∉ (s.thread u).held) :
    ∃ h s', Synchronized.Alone s t h
        ⟨[.ledger], some (printLines accountId later
          (lines ++ accounts.map fun a => (accountId a, s.value a))
          (accounts.foldl (fun sum a => sum + s.value a) total)), todo⟩ s.value s' ∧
      returned h = [] := by
  induction accounts generalizing s lines total with
  | nil =>
      refine ⟨[], s, ?_, rfl⟩
      rw [List.map_nil, List.append_nil]
      exact hth ▸ .refl hok
  | cons a accounts ih =>
      obtain ⟨s₁, h₁⟩ := Synchronized.alone_enter hok hth (hfree a)
      obtain ⟨s₂, h₂⟩ := Synchronized.alone_access h₁.holderOk h₁.self
      obtain ⟨s₃, h₃⟩ := Synchronized.alone_leave h₂.holderOk h₂.self
      have h := (h₁.trans h₂).trans h₃
      have hvalue : s₃.value = s.value := by
        rw [h₃.value, h₂.value, id_eq, Function.update_eq_self, h₁.value]
      obtain ⟨h', s', h₄, hresult⟩ := ih _ _ h₃.holderOk h₃.self fun b u hu => by
        rw [h.others u hu]
        exact hfree b u hu
      rw [hvalue, h₁.value, List.append_assoc] at h₄
      exact ⟨_, s', h.trans h₄, hresult⟩

omit [DecidableEq ι] in
/-- A call of an account or a `transfer` enters no monitor but those of accounts. -/
theorem uses_block [Zero α] [Sub α] [LE α] [LT α] [DecidableLE α] [DecidableLT α] [ToString α]
    (accountId : ι → String) (op : Op ι α) :
    (op.block accountId).Uses fun l => ∃ a, l = Obj.account a := by
  rcases block_cases accountId op with
    ⟨a, rest, hblock, hinside⟩ | ⟨source, target, rest, hblock, hinside⟩
  · rw [hblock]
    exact ⟨⟨a, rfl⟩, hinside.uses (by simp)⟩
  · rw [hblock]
    exact ⟨⟨_, rfl⟩, ⟨_, rfl⟩, hinside.uses (by simp)⟩

end Statement

/-! ## A transfer between two lines -/

section Torn

variable {ι α : Type*} [DecidableEq ι] [AddCommGroup α] [LinearOrder α]
  [ToString α]

omit [DecidableEq ι] [LinearOrder α] [ToString α] in
theorem foldl_add_eq (v : ι → α) (accounts : List ι) (total : α) :
    accounts.foldl (fun sum a => sum + v a) total = total + (accounts.map v).sum := by
  induction accounts generalizing total with
  | nil => simp
  | cons a accounts ih => rw [List.foldl_cons, ih, List.map_cons, List.sum_cons, add_assoc]

/-- One thread prints the statement, and one makes a transfer. -/
def statementAndTransfer (a b : ι) (amount : α) : Bool → List (Call ι α)
  | false => [.printStatement]
  | true => [.op (.transfer a b amount)]

/-- A transfer that is covered, on the map. -/
theorem onBalances_transfer (accountId : ι → String) {m : ι → α} {a : ι} (b : ι) {amount : α}
    (hpos : 0 < amount) (hle : amount ≤ m a) :
    ((Op.transfer a b amount).onBalances accountId m).1 = .unit ∧
      ∀ x, ((Op.transfer a b amount).onBalances accountId m).2 x =
        (m x - if a = x then amount else 0) + if b = x then amount else 0 := by
  rw [Op.onBalances, if_neg (not_le.mpr hpos), if_neg (not_lt.mpr hle)]
  refine ⟨rfl, fun x => ?_⟩
  generalize htaken : Function.update m a (m a - amount) = taken
  show Function.update taken b (taken b + amount) x = _
  rw [update_add_apply, ← htaken, update_sub_apply]

/-- The three parts of the run: the early lines, the transfer, and the late lines. -/
theorem exists_torn (accountId : ι → String) (m : ι → α) (early late : List ι) (a b : ι)
    (amount : α) :
    let after := ((Op.transfer a b amount).onBalances accountId m).2
    ∃ h s, Run step anyStep (Synchronized.start m fun t => (statementAndTransfer a b amount t).map
        (Call.block accountId (early ++ late))) h s ∧ (∀ t, (s.thread t).Finished) ∧
      returned h = [(true, ((Op.transfer a b amount).onBalances accountId m).1),
        (false, .statement
          ((early.map fun x => (accountId x, m x)) ++ late.map fun x => (accountId x, after x))
          ((early.map m).sum + (late.map after).sum))] ∧
      s.value = after := by
  intro after
  generalize hs₀ : (Synchronized.start m fun t => (statementAndTransfer a b amount t).map
    (Call.block accountId (early ++ late)) : Bank Bool ι α) = s₀
  have hok₀ : Synchronized.HolderOk s₀ := hs₀ ▸ .start m _
  have hvalue₀ : s₀.value = m := hs₀ ▸ rfl
  have hprint : s₀.thread false = ⟨[], none, [.enter .ledger (printLines accountId
      (early ++ late) [] 0)]⟩ := hs₀ ▸ rfl
  have htransfer : s₀.thread true =
      ⟨[], none, [(Op.transfer a b amount).block accountId]⟩ := hs₀ ▸ rfl
  -- the early lines
  obtain ⟨s₁, h₁⟩ := Synchronized.alone_call hok₀ hprint
  have hidle₁ : ∀ l u, u ≠ false → l ∉ (s₁.thread u).held := by
    intro l u hu
    rw [h₁.others u hu, Bool.eq_true_of_not_eq_false hu, htransfer]
    exact List.not_mem_nil
  obtain ⟨s₂, h₂⟩ := Synchronized.alone_enter h₁.holderOk h₁.self (hidle₁ .ledger)
  have h₁₂ := h₁.trans h₂
  have hidle₂ : ∀ x u, u ≠ false → Obj.account x ∉ (s₂.thread u).held := by
    intro x u hu
    rw [h₂.others u hu]
    exact hidle₁ _ u hu
  obtain ⟨k₃, s₃, h₃, hnone₃⟩ := alone_printLines early late [] 0 h₂.holderOk h₂.self hidle₂
  have hvalue₂ : s₂.value = m := by rw [h₂.value, h₁.value, hvalue₀]
  rw [hvalue₂] at h₃
  have hearly := h₁₂.trans h₃
  -- the transfer
  have htransfer₃ : s₃.thread true =
      ⟨[], none, [(Op.transfer a b amount).block accountId]⟩ := by
    rw [hearly.others true (by decide), htransfer]
  obtain ⟨s₄, h₄⟩ := Synchronized.alone_call h₃.holderOk htransfer₃
  have hidle₄ : ∀ l, (∃ x, l = Obj.account x) → ∀ u, u ≠ true → l ∉ (s₄.thread u).held := by
    rintro _ ⟨x, rfl⟩ u hu
    rw [h₄.others u hu, Bool.eq_false_of_not_eq_true hu, h₃.self]
    simp
  obtain ⟨k₅, s₅, h₅, hresult₅⟩ := Synchronized.alone_finish (uses_block accountId _)
    (twoPhase_block _) h₄.holderOk h₄.self hidle₄
  have hvalue₄ : s₄.value = m := by rw [h₄.value, h₃.value]
  rw [hvalue₄, run_block] at h₅ hresult₅
  have hmiddle := h₄.trans h₅
  -- the late lines
  have hprint₅ := h₃.self
  rw [← hmiddle.others false (by decide), ← List.append_nil late] at hprint₅
  have hidle₅ : ∀ x u, u ≠ false → Obj.account x ∉ (s₅.thread u).held := by
    intro x u hu
    rw [Bool.eq_true_of_not_eq_false hu, h₅.self]
    exact List.not_mem_nil
  obtain ⟨k₆, s₆, h₆, hnone₆⟩ := alone_printLines late [] _ _ h₅.holderOk hprint₅ hidle₅
  obtain ⟨s₇, h₇⟩ := Synchronized.alone_return h₆.holderOk h₆.self
  obtain ⟨k₈, s₈, h₈, hnone₈⟩ := Synchronized.alone_unwind h₇.holderOk h₇.self
  have hvalue₅ : s₅.value = after := h₅.value
  rw [hvalue₅, foldl_add_eq, foldl_add_eq, zero_add, List.nil_append] at h₇
  have hlate := (h₆.trans h₇).trans h₈
  refine ⟨_, s₈, (hearly.run.trans hmiddle.run).trans hlate.run, ?_, ?_, ?_⟩
  · rintro (_ | _)
    · exact h₈.self
    · rw [hlate.others true (by decide)]
      exact h₅.self
  · have hnone₃ : k₃.filterMap Synchronized.Event.result = [] := hnone₃
    have hnone₆ : k₆.filterMap Synchronized.Event.result = [] := hnone₆
    simp only [returned, List.filterMap_append, hnone₃, hresult₅, hnone₆, hnone₈]
    rfl
  · rw [h₈.value, h₇.value, h₆.value, hvalue₅]

/-- **The statement is no snapshot.**  A transfer from `a` to `b` that is made between the line of
`a` and the line of `b` is in the second one only: the total is off by the amount. -/
theorem printStatement_torn (accountId : ι → String) {m : ι → α} (before between later : List ι)
    {a b : ι} {amount : α} (hnodup : (before ++ a :: between ++ b :: later).Nodup)
    (hpos : 0 < amount) (hle : amount ≤ m a) :
    ∃ h s, Run step anyStep (Synchronized.start m fun t =>
        (statementAndTransfer a b amount t).map
          (Call.block accountId (before ++ a :: between ++ b :: later))) h s ∧
      (∀ t, (s.thread t).Finished) ∧
      returned h = [(true, .unit), (false, .statement
        ((before ++ a :: between ++ b :: later).map fun x =>
          (accountId x, if x = b then m b + amount else m x))
        (((before ++ a :: between ++ b :: later).map m).sum + amount))] ∧
      ((before ++ a :: between ++ b :: later).map s.value).sum =
        ((before ++ a :: between ++ b :: later).map m).sum := by
  obtain ⟨h, s, hr, hfinished, hreturned, hvalue⟩ :=
    exists_torn accountId m (before ++ a :: between) (b :: later) a b amount
  obtain ⟨hunit, hafter⟩ := onBalances_transfer accountId b hpos hle
  have hparts := List.nodup_append.mp hnodup
  have hb : ∀ x ∈ before ++ a :: between, x ≠ b := fun x hx =>
    hparts.2.2 x hx b List.mem_cons_self
  have ha : ∀ x ∈ b :: later, a ≠ x := fun x hx => hparts.2.2 a (by simp) x hx
  have hlater : ∀ x ∈ later, x ≠ b := by
    rintro x hx rfl
    exact (List.nodup_cons.mp hparts.2.1).1 hx
  have hbefore : ∀ x ∈ before, a ≠ x := by
    rintro x hx rfl
    exact (List.nodup_append.mp hparts.1).2.2 a hx a List.mem_cons_self rfl
  have hbetween : ∀ x ∈ between, a ≠ x := by
    rintro x hx rfl
    exact (List.nodup_cons.mp (List.nodup_append.mp hparts.1).2.1).1 hx
  have hearlyAfter : ∀ x ∈ before ++ a :: between, (if x = b then m b + amount else m x) = m x :=
    fun x hx => if_neg (hb x hx)
  have hlateAfter : ∀ x ∈ b :: later,
      ((Op.transfer a b amount).onBalances accountId m).2 x =
        if x = b then m b + amount else m x := by
    intro x hx
    rw [hafter, if_neg (ha x hx), sub_zero]
    by_cases hx' : x = b
    · rw [hx', if_pos rfl, if_pos rfl]
    · rw [if_neg (Ne.symm hx'), if_neg hx', add_zero]
  have hsum : ((b :: later).map ((Op.transfer a b amount).onBalances accountId m).2).sum =
      ((b :: later).map m).sum + amount := by
    have hrest : later.map ((Op.transfer a b amount).onBalances accountId m).2 = later.map m := by
      refine List.map_congr_left fun x hx => ?_
      rw [hlateAfter x (List.mem_cons_of_mem b hx), if_neg (hlater x hx)]
    rw [List.map_cons, hlateAfter b List.mem_cons_self, if_pos rfl, hrest]
    simp only [List.map_cons, List.sum_cons]
    abel
  refine ⟨h, s, hr, hfinished, ?_, ?_⟩
  · rw [hreturned, hunit, hsum]
    have hearlyLines : (before ++ a :: between).map (fun x => (accountId x, m x)) =
        (before ++ a :: between).map fun x =>
          (accountId x, if x = b then m b + amount else m x) :=
      List.map_congr_left fun x hx => by rw [hearlyAfter x hx]
    have hlateLines : (b :: later).map (fun x =>
          (accountId x, ((Op.transfer a b amount).onBalances accountId m).2 x)) =
        (b :: later).map fun x => (accountId x, if x = b then m b + amount else m x) :=
      List.map_congr_left fun x hx => by rw [hlateAfter x hx]
    rw [hearlyLines, hlateLines, ← List.map_append, ← add_assoc, ← List.sum_append,
      ← List.map_append]
  · have hnow : ∀ x, x ∈ before ∨ x ∈ between → s.value x = m x := by
      intro x hx
      have hxa : a ≠ x := hx.elim (hbefore x) (hbetween x)
      have hxb : b ≠ x := by
        refine (hb x ?_).symm
        rcases hx with hx | hx
        · exact List.mem_append_left _ hx
        · exact List.mem_append_right _ (List.mem_cons_of_mem a hx)
      rw [hvalue, hafter, if_neg hxa, if_neg hxb, sub_zero, add_zero]
    have hvaluea : s.value a = m a - amount := by
      rw [hvalue, hafter, if_pos rfl, if_neg (ha b List.mem_cons_self).symm, add_zero]
    have hbefore' : before.map s.value = before.map m :=
      List.map_congr_left fun x hx => hnow x (Or.inl hx)
    have hbetween' : between.map s.value = between.map m :=
      List.map_congr_left fun x hx => hnow x (Or.inr hx)
    rw [← hvalue] at hsum
    simp only [List.map_append, List.sum_append, List.map_cons, List.sum_cons, hbefore',
      hbetween', hvaluea] at hsum ⊢
    rw [hsum]
    abel

/-- While `alice` transfers 50 to `bob` the statement shows 1900, not 1850. -/
theorem printStatement_torn_demo :
    ∃ h s, Run step anyStep (Synchronized.start demoBalances fun t =>
        (statementAndTransfer Customer.alice .bob (50 : ℤ) t).map
          (Call.block Customer.id [.alice, .bob, .carol])) h s ∧
      (∀ t, (s.thread t).Finished) ∧
      returned h = [(true, .unit), (false, .statement
        [("alice", 1200), ("bob", 450), ("carol", 250)] 1900)] ∧
      ([Customer.alice, .bob, .carol].map s.value).sum = 1850 :=
  printStatement_torn Customer.id [] [] [.carol] (m := demoBalances) (by decide) (by decide)
    (by decide)

end Torn

end ScalaBank

end Lock
