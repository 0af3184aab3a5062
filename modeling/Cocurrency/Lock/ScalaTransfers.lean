/-
# Transfers that are covered (`scala/shared_memory/BankAccount.scala`)

If no account can be overdrawn, whatever comes first, then it does not matter in which order the
calls are made: none raises an exception, and the balances in the end are always the same.  The
arithmetic is that of an ordered group.

* `covered_calls` : so it is in every run;
* `covered_calls_demo` : in the end the accounts of the demo always have 1850 together, which are
  announced as 1750.
-/
import Cocurrency.Lock.ScalaBank
import Mathlib.Algebra.Order.BigOperators.Group.List
import Mathlib.Algebra.Order.Ring.Int
import Mathlib.Tactic.Abel

namespace Lock

namespace ScalaBank

/-! ## What a call takes and gives -/

section Amounts

variable {ι α : Type*} [DecidableEq ι] [AddCommGroup α] [LinearOrder α]

/-- What the call takes from account `a`, if it returns. -/
def Op.takes (a : ι) : Op ι α → α
  | .withdraw b amount => if b = a then amount else 0
  | .transfer source _ amount => if source = a then amount else 0
  | .balance _ | .deposit _ _ | .snapshot _ => 0

/-- What the call brings to account `a`, if it returns. -/
def Op.gives (a : ι) : Op ι α → α
  | .deposit b amount => if b = a then amount else 0
  | .transfer _ target amount => if target = a then amount else 0
  | .balance _ | .withdraw _ _ | .snapshot _ => 0

omit [DecidableEq ι] in
/-- Its amount is positive. -/
def Op.Positive : Op ι α → Prop
  | .deposit _ amount | .withdraw _ amount | .transfer _ _ amount => 0 < amount
  | _ => True

omit [LinearOrder α] in
theorem update_sub_apply (m : ι → α) (b a : ι) (amount : α) :
    Function.update m b (m b - amount) a = m a - if b = a then amount else 0 := by
  by_cases hb : b = a
  · subst hb
    rw [Function.update_self, if_pos rfl]
  · rw [Function.update_of_ne (Ne.symm hb), if_neg hb, sub_zero]

omit [LinearOrder α] in
theorem update_add_apply (m : ι → α) (b a : ι) (amount : α) :
    Function.update m b (m b + amount) a = m a + if b = a then amount else 0 := by
  by_cases hb : b = a
  · subst hb
    rw [Function.update_self, if_pos rfl]
  · rw [Function.update_of_ne (Ne.symm hb), if_neg hb, add_zero]

theorem takes_nonneg {op : Op ι α} (hpos : op.Positive) (a : ι) : 0 ≤ op.takes a := by
  cases op with
  | withdraw b amount =>
      rw [Op.takes]
      split_ifs
      · exact le_of_lt hpos
      · exact le_refl 0
  | transfer source target amount =>
      rw [Op.takes]
      split_ifs
      · exact le_of_lt hpos
      · exact le_refl 0
  | _ => exact le_refl 0

theorem gives_nonneg {op : Op ι α} (hpos : op.Positive) (a : ι) : 0 ≤ op.gives a := by
  cases op with
  | deposit b amount =>
      rw [Op.gives]
      split_ifs
      · exact le_of_lt hpos
      · exact le_refl 0
  | transfer source target amount =>
      rw [Op.gives]
      split_ifs
      · exact le_of_lt hpos
      · exact le_refl 0
  | _ => exact le_refl 0

variable [ToString α] (accountId : ι → String) {m : ι → α}

/-- A call that is covered returns. -/
theorem onBalances_of_covered {op : Op ι α} (hpos : op.Positive)
    (hcovered : ∀ a, op.takes a ≤ m a) :
    (∀ message, (op.onBalances accountId m).1 ≠ .raised message) ∧
      ∀ a, (op.onBalances accountId m).2 a = m a - op.takes a + op.gives a := by
  cases op with
  | balance b =>
      refine ⟨fun _ h => (by cases h), fun a => ?_⟩
      simp [Op.onBalances, Op.takes, Op.gives]
  | snapshot b =>
      refine ⟨fun _ h => (by cases h), fun a => ?_⟩
      simp [Op.onBalances, Op.takes, Op.gives]
  | deposit b amount =>
      rw [Op.onBalances, if_neg (not_le.mpr hpos)]
      refine ⟨fun _ h => (by cases h), fun a => ?_⟩
      show Function.update m b (m b + amount) a = _
      rw [update_add_apply, Op.takes, Op.gives, sub_zero]
  | withdraw b amount =>
      have henough : ¬ m b < amount := by
        have hb := hcovered b
        rw [Op.takes, if_pos rfl] at hb
        exact not_lt.mpr hb
      rw [Op.onBalances, if_neg (not_le.mpr hpos), if_neg henough]
      refine ⟨fun _ h => (by cases h), fun a => ?_⟩
      show Function.update m b (m b - amount) a = _
      rw [update_sub_apply, Op.takes, Op.gives, add_zero]
  | transfer source target amount =>
      have henough : ¬ m source < amount := by
        have hsource := hcovered source
        rw [Op.takes, if_pos rfl] at hsource
        exact not_lt.mpr hsource
      rw [Op.onBalances, if_neg (not_le.mpr hpos), if_neg henough]
      refine ⟨fun _ h => (by cases h), fun a => ?_⟩
      generalize htaken : Function.update m source (m source - amount) = taken
      show Function.update taken target (taken target + amount) a = _
      rw [update_add_apply, ← htaken, update_sub_apply, Op.takes, Op.gives]

end Amounts

/-! ## Any order -/

section Orders

variable {τ ι α : Type*} [DecidableEq ι] [AddCommGroup α] [LinearOrder α]
  [IsOrderedAddMonoid α]

/-- What the calls take from account `a`. -/
def taken (a : ι) (ops : List (Op ι α)) : α := (ops.map (Op.takes a)).sum

/-- What the calls bring to account `a`. -/
def given (a : ι) (ops : List (Op ι α)) : α := (ops.map (Op.gives a)).sum

variable [ToString α] (accountId : ι → String)

/-- In any order none of the calls raises an exception. -/
theorem serially_of_covered (calls : List (τ × Op ι α)) {m : ι → α}
    (hpos : ∀ c ∈ calls, c.2.Positive) (hcovered : ∀ a, taken a (calls.map Prod.snd) ≤ m a) :
    (∀ r ∈ (serially accountId m calls).1, ∀ message, r.2 ≠ .raised message) ∧
      ∀ a, (serially accountId m calls).2 a =
        m a - taken a (calls.map Prod.snd) + given a (calls.map Prod.snd) := by
  induction calls generalizing m with
  | nil => exact ⟨nofun, fun a => by simp [serially, taken, given]⟩
  | cons c calls ih =>
      obtain ⟨t, op⟩ := c
      have hop : op.Positive := hpos _ List.mem_cons_self
      have hrest : ∀ c ∈ calls, c.2.Positive := fun c hc => hpos c (List.mem_cons_of_mem _ hc)
      have hsum : ∀ a, op.takes a + taken a (calls.map Prod.snd) ≤ m a := hcovered
      have hlater : ∀ a, 0 ≤ taken a (calls.map Prod.snd) := by
        intro a
        refine List.sum_nonneg fun x hx => ?_
        simp only [List.map_map, List.mem_map] at hx
        obtain ⟨c, hc, rfl⟩ := hx
        exact takes_nonneg (hrest c hc) a
      obtain ⟨hnow, hvalue⟩ := onBalances_of_covered accountId hop
        fun a => (le_add_of_nonneg_right (hlater a)).trans (hsum a)
      have hcovered' : ∀ a, taken a (calls.map Prod.snd) ≤ (op.onBalances accountId m).2 a := by
        intro a
        rw [hvalue]
        calc taken a (calls.map Prod.snd)
            ≤ m a - op.takes a := le_sub_iff_add_le'.mpr (hsum a)
          _ ≤ m a - op.takes a + op.gives a := le_add_of_nonneg_right (gives_nonneg hop a)
      obtain ⟨hresults, hfinal⟩ := ih hrest hcovered'
      refine ⟨fun r hr => ?_, fun a => ?_⟩
      · rcases List.mem_cons.mp hr with rfl | hr
        · exact hnow
        · exact hresults r hr
      · rw [serially]
        show (serially accountId (op.onBalances accountId m).2 calls).2 a = _
        rw [hfinal, hvalue]
        simp only [taken, given, List.map_cons, List.sum_cons]
        abel

variable [DecidableEq τ] [Fintype τ]

omit [DecidableEq ι] [LinearOrder α] [IsOrderedAddMonoid α] [ToString α] in
/-- The calls of all threads are all calls. -/
theorem sum_callsOf (f : Op ι α → α) (calls : List (τ × Op ι α)) :
    ∑ t, ((callsOf t calls).map f).sum = ((calls.map Prod.snd).map f).sum := by
  induction calls with
  | nil => simp [callsOf]
  | cons c calls ih =>
      obtain ⟨t, op⟩ := c
      have hone : ∀ u, ((callsOf u ((t, op) :: calls)).map f).sum =
          (if t = u then f op else 0) + ((callsOf u calls).map f).sum := by
        intro u
        by_cases hu : t = u
        · simp [callsOf, hu]
        · simp [callsOf, hu]
      rw [Finset.sum_congr rfl fun u _ => hone u, Finset.sum_add_distrib, Finset.sum_ite_eq, ih]
      simp

/-- **Calls that are covered.**  If the amounts are positive and every balance is at least what all
calls together take from it, then under no schedule a call raises an exception, and when all have
returned the balances are those that the amounts add up to. -/
theorem covered_calls {m : ι → α} {program : τ → List (Op ι α)}
    (hpos : ∀ t, ∀ op ∈ program t, op.Positive) (hcovered : ∀ a, ∑ t, taken a (program t) ≤ m a) :
    Halts step (start accountId m program) ∧
      ∀ h s, Run step anyStep (start accountId m program) h s →
        (∀ r ∈ returned h, ∀ message, r.2 ≠ .raised message) ∧
        ((∀ t, (s.thread t).Finished) → ∀ a, s.value a =
          m a - ∑ t, taken a (program t) + ∑ t, given a (program t)) := by
  refine ⟨Synchronized.halts _, fun h s hr => ?_⟩
  obtain ⟨calls, hcalls, hreturned, hvalue⟩ := exists_serial hr
  have hmem : ∀ c ∈ calls, c.2 ∈ program c.1 := by
    intro c hc
    refine (hcalls c.1).1.subset (List.mem_filterMap.mpr ⟨c, hc, ?_⟩)
    rw [if_pos rfl]
  have hle : ∀ a, taken a (calls.map Prod.snd) ≤ m a := by
    intro a
    refine le_trans ?_ (hcovered a)
    rw [taken, ← sum_callsOf]
    refine Finset.sum_le_sum fun t _ => ?_
    obtain ⟨rest, hrest⟩ := (hcalls t).1
    have hnonneg : 0 ≤ (rest.map (Op.takes a)).sum := by
      refine List.sum_nonneg fun x hx => ?_
      obtain ⟨op, hop, rfl⟩ := List.mem_map.mp hx
      exact takes_nonneg (hpos t op (hrest ▸ List.mem_append_right _ hop)) a
    rw [taken, ← hrest, List.map_append, List.sum_append]
    exact le_add_of_nonneg_right hnonneg
  obtain ⟨hresults, hfinal⟩ := serially_of_covered accountId calls
    (fun c hc => hpos c.1 c.2 (hmem c hc)) hle
  refine ⟨fun r hr' => hresults r (hreturned ▸ hr'), fun hfinished a => ?_⟩
  have hall : ∀ t, callsOf t calls = program t := fun t => (hcalls t).2 (hfinished t)
  have hfree := (Synchronized.holderOk_run hr).holder_eq_none hfinished (.account a)
  rw [hvalue a hfree, hfinal, taken, given, ← sum_callsOf, ← sum_callsOf]
  simp only [hall, taken, given]

end Orders

/-! ## The demo -/

/-- The customers of the demo. -/
inductive Customer where
  | alice
  | bob
  | carol
  deriving DecidableEq

instance : Fintype Customer where
  elems := {.alice, .bob, .carol}
  complete a := by cases a <;> decide

/-- Their ids. -/
def Customer.id : Customer → String
  | .alice => "alice"
  | .bob => "bob"
  | .carol => "carol"

/-- The balances after the deposit of 200 and the withdrawal of 100. -/
def demoBalances : Customer → ℤ
  | .alice => 1200
  | .bob => 400
  | .carol => 250

/-- Four threads transfer 50 from `alice` to `bob`, and four 25 from `bob` to `carol`. -/
def demoProgram : Bool × Fin 4 → List (Op Customer ℤ)
  | (true, _) => [.transfer .alice .bob 50]
  | (false, _) => [.transfer .bob .carol 25]

theorem demoProgram_positive (t : Bool × Fin 4) (op : Op Customer ℤ) (hop : op ∈ demoProgram t) :
    op.Positive := by
  obtain ⟨first, i⟩ := t
  cases first <;> rw [List.mem_singleton.mp hop, Op.Positive] <;> decide

/-- Whatever the schedule, the transfers leave 1000, 500 and 350, and the sum that is announced as
"should be 1750.00" is 1850. -/
theorem covered_calls_demo :
    Halts step (start Customer.id demoBalances demoProgram) ∧
      ∀ h s, Run step anyStep (start Customer.id demoBalances demoProgram) h s →
        (∀ t, (s.thread t).Finished) →
          s.value .alice = 1000 ∧ s.value .bob = 500 ∧ s.value .carol = 350 ∧
            s.value .alice + s.value .bob + s.value .carol = 1850 := by
  obtain ⟨hhalts, hruns⟩ := covered_calls Customer.id (m := demoBalances) demoProgram_positive
    fun a => by cases a <;> decide
  refine ⟨hhalts, fun h s hr hfinished => ?_⟩
  have hvalue := (hruns h s hr).2 hfinished
  have halice : s.value .alice = 1000 := (hvalue .alice).trans (by decide)
  have hbob : s.value .bob = 500 := (hvalue .bob).trans (by decide)
  have hcarol : s.value .carol = 350 := (hvalue .carol).trans (by decide)
  refine ⟨halice, hbob, hcarol, ?_⟩
  rw [halice, hbob, hcarol]
  rfl

end ScalaBank

end Lock
