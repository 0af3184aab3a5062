/-
# What `main` waits for and reads (`haskell/shared_memory/BankAccount.hs`)

The threads that have still to end, the `()` that are still to be put and taken, and what `main`
reads once all have ended.
-/
import Cocurrency.Lock.MVarBank

namespace Lock

namespace MVarBank

/-! ## Who is still to end, and what `main` has read -/

section Main

variable {α τ : Type*}

/-- The thread has still to put `()` into `done`. -/
def Control.active : Control α → ℕ
  | .calls _ => 1
  | .putting _ _ _ => 1
  | _ => 0

/-- A forked thread is at such a point. -/
def Control.Forked : Control α → Prop
  | .calls _ => True
  | .putting _ _ _ => True
  | .ended => True
  | _ => False

variable [DecidableEq α] [DecidableEq τ] [Fintype α] [Fintype τ]

/-- As `toBitVec`, a sum of machine integers does not depend on the order. -/
abbrev bits (x : Int64) : BitVec 64 := x.toBitVec

/-- All forked threads have ended. -/
def AllEnded (s : State α τ) : Prop := ∀ i, s.control (some i) = .ended

/-- What holds at the points of `main`. -/
inductive MainOk (s : State α τ) : Control α → Prop
  | waiting (more : ℕ) :
      ∑ i, (s.control (some i)).active + (s.content .done).elim 0 (fun _ => 1) = more + 1 →
      MainOk s (.waiting more)
  | reading (rest : List α) (total : Int64) : AllEnded s → s.content .done = none → rest.Nodup →
      bits total + (rest.map (stored bits s)).sum = allMoney bits s → MainOk s (.reading rest total)
  | puttingBack (acc : α) (balance : Int64) (rest : List α) (total : Int64) :
      AllEnded s → s.content .done = none → (acc :: rest).Nodup →
      bits total + (rest.map (stored bits s)).sum = allMoney bits s →
      MainOk s (.puttingBack acc balance rest total)

/-- What holds in every state. -/
structure Ok (total : BitVec 64) (s : State α τ) : Prop where
  locks : MVar.Lends.Ok (· ≠ Var.done) held s
  forked : ∀ i, (s.control (some i)).Forked
  main : MainOk s (s.control none)
  money : allMoney bits s = total

variable {accounts : List α} {s s' : State α τ} {total : BitVec 64} {i : τ}

omit [DecidableEq α] [DecidableEq τ] [Fintype α] [Fintype τ] in
theorem exact_bits (s : State α τ) (t : Option τ) : Exact bits s t where
  add _ _ _ _ _ _ := Int64.toBitVec_add
  sub _ _ _ _ _ _ _ _ := Int64.toBitVec_sub

omit [DecidableEq α] [DecidableEq τ] [Fintype α] [Fintype τ] in
/-- What a thread has taken is empty. -/
theorem empty_of_held {t : Option τ} (h : MVar.Lends.Ok (· ≠ Var.done) held s) (a : α)
    (ha : held (s.control t) = some (.account a)) : s.content (.account a) = none :=
  (h.empty_iff (.account a) nofun).mpr ⟨t, ha⟩

/-- A forked thread moves while `main` waits. -/
theorem MainOk.of_forked {v : Var α} {x : Option (Value v)} {k k₀ : Control α}
    (hmain : MainOk s k₀) (hnot : s.control (some i) ≠ .ended)
    (hactive : k.active + ((s.set v x (some i) k).content .done).elim 0 (fun _ => 1) =
      (s.control (some i)).active + (s.content .done).elim 0 (fun _ => 1)) :
    MainOk (s.set v x (some i) k) k₀ := by
  cases hmain with
  | waiting more hmore =>
      have hsum := Monitor.sum_update_add Control.active (fun j => s.control (some j)) i k
      have hcontrol : ∀ j, (s.set v x (some i) k).control (some j) =
          Function.update (fun j => s.control (some j)) i k j := by
        intro j
        by_cases hj : j = i
        · subst hj
          rw [MVar.State.set_control_self, Function.update_self]
        · rw [MVar.State.set_control_of_ne (by simpa using hj), Function.update_of_ne hj]
      refine .waiting more ?_
      simp only [hcontrol]
      omega
  | reading rest total hended => exact absurd (hended i) hnot
  | puttingBack acc balance rest total hended => exact absurd (hended i) hnot

/-- A step at an account is nothing to `main`. -/
theorem MainOk.of_account {acc : α} {x : Option Int64} {k k₀ : Control α} (hmain : MainOk s k₀)
    (hnow : (s.control (some i)).active = 1) (hthen : k.active = 1) :
    MainOk (s.set (.account acc) x (some i) k) k₀ := by
  apply hmain.of_forked
  · intro hended
    rw [hended] at hnow
    cases hnow
  · rw [content_done_set, hnow, hthen]

/-- A forked thread makes a step. -/
theorem Ok.main_forked (h : Ok total s) (hs : Moves accounts s (some i) s') :
    MainOk s' (s'.control none) := by
  have hforked := h.forked i
  have hmain := h.main
  have hne : (none : Option τ) ≠ some i := (Option.some_ne_none i).symm
  cases hs with
  | deposits acc amount rest bal hcontrol hcontent =>
      rw [MVar.State.set_control_of_ne hne]
      exact hmain.of_account (by rw [hcontrol, Control.active]) rfl
  | withdraws src dst amount rest bal hcontrol hcontent hle =>
      rw [MVar.State.set_control_of_ne hne]
      exact hmain.of_account (by rw [hcontrol, Control.active]) rfl
  | fails src dst amount rest bal hcontrol hcontent =>
      rw [MVar.State.set_control_of_ne hne]
      exact hmain.of_account (by rw [hcontrol, Control.active]) rfl
  | puts acc balance rest hcontrol =>
      rw [MVar.State.set_control_of_ne hne]
      exact hmain.of_account (by rw [hcontrol, Control.active]) rfl
  | ends hcontrol hcontent =>
      rw [MVar.State.set_control_of_ne hne]
      apply hmain.of_forked (by rw [hcontrol]; exact nofun)
      rw [MVar.State.set_content_self, hcontrol, hcontent]
      rfl
  | awaits more hcontrol hcontent =>
      rw [hcontrol] at hforked
      exact hforked.elim
  | reads acc rest total bal hcontrol hcontent =>
      rw [hcontrol] at hforked
      exact hforked.elim
  | putsBack acc balance rest total hcontrol =>
      rw [hcontrol] at hforked
      exact hforked.elim

omit [DecidableEq τ] in
/-- When all forked threads have ended, the money is where `main` looks for it. -/
theorem mainOk_await (hnodup : accounts.Nodup) (hall : ∀ a, a ∈ accounts) {more : ℕ}
    (hforked : ∀ i, (s.control (some i)).Forked) (hcontrol : s.control none = await accounts more)
    (hdone : s.content .done = none) (hmore : ∑ i, (s.control (some i)).active = more) :
    MainOk s (await accounts more) := by
  cases more with
  | succ more => exact .waiting more (by rw [hmore, hdone]; rfl)
  | zero =>
      have hended : AllEnded s := by
        intro i
        have hzero := Finset.sum_eq_zero_iff.mp hmore i (Finset.mem_univ i)
        have hi := hforked i
        cases hk : s.control (some i) with
        | ended => rfl
        | _ =>
            rw [hk] at hi hzero
            first | exact hi.elim | cases hzero
      refine .reading accounts 0 hended hdone hnodup ?_
      have hthreads : ∑ t, (s.control t).money bits = 0 := by
        rw [Fintype.sum_option, hcontrol, money_await, Finset.sum_eq_zero fun i _ => by
          rw [hended i]; rfl]
        rfl
      have huniv : accounts.toFinset = Finset.univ :=
        Finset.eq_univ_iff_forall.mpr fun a => List.mem_toFinset.mpr (hall a)
      rw [allMoney, hthreads, ← huniv, List.sum_toFinset _ hnodup]
      show (0 : BitVec 64) + _ = _ + 0
      rw [zero_add, add_zero]

/-- `main` makes a step. -/
theorem Ok.main_main (hnodup : accounts.Nodup) (hall : ∀ a, a ∈ accounts) (h : Ok total s)
    (hmoney : allMoney bits s' = allMoney bits s) (hs : Moves accounts s none s') :
    MainOk s' (s'.control none) := by
  have hmain := h.main
  cases hs with
  | awaits more hcontrol hcontent =>
      rw [hcontrol] at hmain
      cases hmain with
      | waiting _ hmore =>
          rw [hcontent] at hmore
          rw [MVar.State.set_control_self]
          apply mainOk_await hnodup hall _ MVar.State.set_control_self MVar.State.set_content_self
          · simp only [MVar.State.set_control_of_ne (Option.some_ne_none _)]
            exact Nat.add_right_cancel hmore
          · intro i
            rw [MVar.State.set_control_of_ne (Option.some_ne_none i)]
            exact h.forked i
  | reads acc rest readSoFar bal hcontrol hcontent =>
      rw [hcontrol] at hmain
      cases hmain with
      | reading _ _ hended hdone hnodup hsum =>
          rw [MVar.State.set_control_self]
          refine .puttingBack acc bal rest _ (fun i => ?_) (by rw [content_done_set, hdone])
            hnodup ?_
          · rw [MVar.State.set_control_of_ne (Option.some_ne_none i), hended i]
          · rw [hmoney, ← hsum, List.map_cons, List.sum_cons, stored, hcontent]
            rw [List.map_congr_left fun a ha => stored_set_of_ne bits
              (ne_of_mem_of_not_mem ha (List.nodup_cons.mp hnodup).1)]
            show (readSoFar + bal).toBitVec + _ = _ + (bal.toBitVec + _)
            rw [Int64.toBitVec_add, add_assoc]
  | putsBack acc balance rest readSoFar hcontrol =>
      rw [hcontrol] at hmain
      cases hmain with
      | puttingBack _ _ _ _ hended hdone hnodup hsum =>
          rw [MVar.State.set_control_self]
          refine .reading rest _ (fun i => ?_) (by rw [content_done_set, hdone])
            (List.nodup_cons.mp hnodup).2 ?_
          · rw [MVar.State.set_control_of_ne (Option.some_ne_none i), hended i]
          · rw [hmoney, ← hsum, List.map_congr_left fun a ha => stored_set_of_ne bits
              (ne_of_mem_of_not_mem ha (List.nodup_cons.mp hnodup).1)]
  | deposits acc amount rest bal hcontrol hcontent =>
      rw [hcontrol] at hmain
      cases hmain
  | withdraws src dst amount rest bal hcontrol hcontent hle =>
      rw [hcontrol] at hmain
      cases hmain
  | fails src dst amount rest bal hcontrol hcontent =>
      rw [hcontrol] at hmain
      cases hmain
  | puts acc balance rest hcontrol =>
      rw [hcontrol] at hmain
      cases hmain
  | ends hcontrol hcontent =>
      rw [hcontrol] at hmain
      cases hmain

/-- A forked thread stays one. -/
theorem Ok.forked_step (h : Ok total s) {t : Option τ} (hs : Moves accounts s t s') (i : τ) :
    (s'.control (some i)).Forked := by
  have hi := h.forked i
  have hset : ∀ (v : Var α) (x : Option (Value v)) (k : Control α),
      ((s.control t).Forked → k.Forked) → ((s.set v x t k).control (some i)).Forked := by
    intro v x k hk
    by_cases hit : some i = t
    · subst hit
      rw [MVar.State.set_control_self]
      exact hk hi
    · rwa [MVar.State.set_control_of_ne hit]
  cases hs with
  | deposits | withdraws | fails | puts | ends => exact hset _ _ _ fun _ => trivial
  | awaits more hcontrol hcontent =>
      refine hset _ _ _ fun hk => ?_
      rw [hcontrol] at hk
      exact hk.elim
  | reads acc rest total bal hcontrol hcontent =>
      refine hset _ _ _ fun hk => ?_
      rw [hcontrol] at hk
      exact hk.elim
  | putsBack acc balance rest total hcontrol =>
      refine hset _ _ _ fun hk => ?_
      rw [hcontrol] at hk
      exact hk.elim

/-- **The step lemma**. -/
theorem Ok.step (hnodup : accounts.Nodup) (hall : ∀ a, a ∈ accounts) (h : Ok total s)
    {t : Option τ} {e : MVar.Event (Option τ) (Var α) Value}
    (hs : MVarBank.step accounts s t = some (e, s')) : Ok total s' := by
  have hmoves := moves_step hs
  have hmoney := money_moves bits (exact_bits s t) (empty_of_held h.locks) hmoves
  refine ⟨(lends accounts).step h.locks hs, h.forked_step hmoves, ?_, hmoney.trans h.money⟩
  cases t with
  | none => exact h.main_main hnodup hall hmoney hmoves
  | some i => exact h.main_forked hmoves

/-- The money that there is, and that will be deposited. -/
def inAll {M : Type*} [AddCommGroup M] (m : Int64 → M) (initial : α → Int64)
    (program : τ → List (Call α)) : M :=
  ∑ a, m (initial a) + ∑ i, deposits m (program i)

omit [DecidableEq α] [DecidableEq τ] in
/-- The money at the start. -/
theorem allMoney_start {M : Type*} [AddCommGroup M] (m : Int64 → M) (accounts : List α)
    (initial : α → Int64) (program : τ → List (Call α)) :
    allMoney m (start accounts initial program) = inAll m initial program := by
  rw [allMoney, Fintype.sum_option]
  show _ + ((await accounts _).money m + _) = _
  rw [money_await, zero_add]
  rfl

omit [DecidableEq α] [DecidableEq τ] [Fintype α] in
/-- At the start every account has its balance in its variable. -/
theorem locks_start (accounts : List α) (initial : α → Int64) (program : τ → List (Call α)) :
    MVar.Lends.Ok (· ≠ Var.done) held (start accounts initial program) := by
  have hnothing : ∀ t : Option τ, held ((start accounts initial program).control t) = none := by
    intro t
    cases t with
    | none => exact held_await accounts _
    | some i => rfl
  refine ⟨fun v hv => ?_, fun t v ht => ?_, fun t u v ht => ?_⟩
  · cases v with
    | account a =>
        refine iff_of_false (Option.some_ne_none _) ?_
        rintro ⟨t, ht⟩
        rw [hnothing] at ht
        cases ht
    | done => exact absurd rfl hv
  · rw [hnothing] at ht
    cases ht
  · rw [hnothing] at ht
    cases ht

omit [DecidableEq τ] in
/-- At the start nobody has ended. -/
theorem Ok.start (hnodup : accounts.Nodup) (hall : ∀ a, a ∈ accounts) (initial : α → Int64)
    (program : τ → List (Call α)) :
    Ok (inAll bits initial program) (MVarBank.start accounts initial program) where
  locks := locks_start accounts initial program
  forked i := trivial
  main := by
    refine mainOk_await hnodup hall (fun i => ?_) rfl rfl ?_
    · exact trivial
    · exact (Finset.card_eq_sum_ones Finset.univ).symm
  money := allMoney_start bits accounts initial program

/-- Nothing gets stuck. -/
theorem Ok.stuck (h : Ok total s) (hstuck : ∀ t, MVarBank.step accounts s t = none) :
    AllEnded s ∧ ∃ readSoFar, s.control none = .reading [] readSoFar ∧ bits readSoFar = total := by
  have hfull : ∀ a, (∀ t, held (s.control t) ≠ some (.account a)) ∧
      s.content (.account a) ≠ none := by
    intro a
    have hlock : Var.account a ≠ Var.done := nofun
    obtain ⟨hnobody, x, hx⟩ := (lends accounts).full_of_stuck h.locks hstuck hlock
    exact ⟨hnobody, by rw [hx]; exact Option.some_ne_none x⟩
  -- a thread that has not ended waits for `done` to be empty
  have hworker : ∀ i, s.control (some i) = .ended ∨ s.content .done ≠ none := by
    intro i
    have hi := h.forked i
    cases hcontrol : s.control (some i) with
    | ended => exact Or.inl rfl
    | calls rest =>
        rcases rest with _ | ⟨⟨acc, amount⟩ | ⟨src, dst, amount⟩, rest⟩
        · obtain ⟨y, hy⟩ := MVar.full_of_stuck (by rw [hcontrol]; rfl) (hstuck (some i))
          exact Or.inr (by rw [hy]; exact Option.some_ne_none y)
        · have hempty := MVar.empty_of_stuck (by rw [hcontrol]; rfl) (hstuck (some i))
          exact absurd hempty (hfull acc).2
        · have hempty := MVar.empty_of_stuck (by rw [hcontrol]; rfl) (hstuck (some i))
          exact absurd hempty (hfull src).2
    | putting acc balance rest => exact absurd (by rw [hcontrol]; rfl) ((hfull acc).1 (some i))
    | _ =>
        rw [hcontrol] at hi
        exact hi.elim
  have hmain := h.main
  cases hcontrol : s.control none with
  | waiting more =>
      have hdone := MVar.empty_of_stuck (by rw [hcontrol]; rfl) (hstuck none)
      rw [hcontrol] at hmain
      cases hmain with
      | waiting _ hmore =>
          have hzero : ∑ i, (s.control (some i)).active = 0 := Finset.sum_eq_zero fun i _ => by
            rcases hworker i with hended | hfull
            · rw [hended]
              rfl
            · exact absurd hdone hfull
          rw [hzero, hdone] at hmore
          cases hmore
  | reading rest readSoFar =>
      rw [hcontrol] at hmain
      cases hmain with
      | reading _ _ hended hdone hnodup hsum =>
          cases rest with
          | nil =>
              refine ⟨hended, readSoFar, rfl, ?_⟩
              rw [← h.money, ← hsum, List.map_nil, List.sum_nil, add_zero]
          | cons acc rest =>
              have hempty := MVar.empty_of_stuck (by rw [hcontrol]; rfl) (hstuck none)
              exact absurd hempty (hfull acc).2
  | puttingBack acc balance rest readSoFar =>
      exact absurd (by rw [hcontrol]; rfl) ((hfull acc).1 none)
  | _ =>
      rw [hcontrol] at hmain
      cases hmain

end Main

end MVarBank

end Lock
