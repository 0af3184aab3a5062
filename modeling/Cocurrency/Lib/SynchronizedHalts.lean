/-
# Synchronized calls come to an end

* `finished_of_ordered` : if every lock that a thread does not have yet ranks above those that it
  has, then nobody waits for ever;
* `halts` : no run goes on for ever;
* `alone_finish` : a thread whose locks nobody else has can go on to the end of its call.
-/
import Cocurrency.Lib.SynchronizedSerial

namespace Synchronized

/-! ## Every run comes to an end -/

section Ends

variable {τ ℓ ο ν ρ : Type*}

/-- Where a thread can be after a step. -/
inductive Thread.Next : Thread ℓ ο ν ρ → Thread ℓ ο ν ρ → Prop
  | called (call : Block ℓ ο ν ρ) (todo : List (Block ℓ ο ν ρ)) :
      Next ⟨[], some call, todo⟩ ⟨[], none, call :: todo⟩
  | entered (l : ℓ) (rest : Block ℓ ο ν ρ) (held : List ℓ) (todo : List (Block ℓ ο ν ρ)) :
      Next ⟨l :: held, some rest, todo⟩ ⟨held, some (.enter l rest), todo⟩
  | left (l : ℓ) (rest : Block ℓ ο ν ρ) (held : List ℓ) (todo : List (Block ℓ ο ν ρ)) :
      Next ⟨held, some rest, todo⟩ ⟨l :: held, some (.leave rest), todo⟩
  | leftAfter (l : ℓ) (held : List ℓ) (todo : List (Block ℓ ο ν ρ)) :
      Next ⟨held, none, todo⟩ ⟨l :: held, none, todo⟩
  | accessed (o : ο) (change : ν → ν) (next : ν → Block ℓ ο ν ρ) (v : ν) (held : List ℓ)
      (todo : List (Block ℓ ο ν ρ)) :
      Next ⟨held, some (next v), todo⟩ ⟨held, some (.access o change next), todo⟩
  | returned (result : ρ) (held : List ℓ) (todo : List (Block ℓ ο ν ρ)) :
      Next ⟨held, none, todo⟩ ⟨held, some (.done result), todo⟩

/-- A thread that leaves its blocks. -/
theorem acc_none {todo : List (Block ℓ ο ν ρ)}
    (h : ∀ call rest, todo = call :: rest → Acc Thread.Next ⟨[], some call, rest⟩)
    (held : List ℓ) : Acc Thread.Next (⟨held, none, todo⟩ : Thread ℓ ο ν ρ) := by
  induction held with
  | nil =>
      constructor
      intro th hnext
      cases hnext with
      | called call rest => exact h call rest rfl
  | cons l held ih =>
      constructor
      intro th hnext
      cases hnext with
      | leftAfter => exact ih

/-- A thread in a call. -/
theorem acc_some {todo : List (Block ℓ ο ν ρ)}
    (h : ∀ held, Acc Thread.Next (⟨held, none, todo⟩ : Thread ℓ ο ν ρ)) (call : Block ℓ ο ν ρ)
    (held : List ℓ) : Acc Thread.Next (⟨held, some call, todo⟩ : Thread ℓ ο ν ρ) := by
  induction call generalizing held with
  | done result =>
      constructor
      intro th hnext
      cases hnext with
      | returned => exact h held
  | enter l rest ih =>
      constructor
      intro th hnext
      cases hnext with
      | entered => exact ih _
  | leave rest ih =>
      constructor
      intro th hnext
      cases hnext with
      | left l _ held => exact ih _
  | access o change next ih =>
      constructor
      intro th hnext
      cases hnext with
      | accessed _ _ _ v => exact ih v held

/-- What is next in a thread goes down. -/
theorem wellFounded_next : WellFounded (Thread.Next (ℓ := ℓ) (ο := ο) (ν := ν) (ρ := ρ)) := by
  have hnone : ∀ (todo : List (Block ℓ ο ν ρ)) (held : List ℓ),
      Acc Thread.Next (⟨held, none, todo⟩ : Thread ℓ ο ν ρ) := by
    intro todo
    induction todo with
    | nil => exact acc_none nofun
    | cons call todo ih =>
        refine acc_none fun call' rest heq => ?_
        cases heq
        exact acc_some ih call []
  constructor
  rintro ⟨held, current, todo⟩
  cases current with
  | none => exact hnone todo held
  | some call => exact acc_some (hnone todo) call held

variable [DecidableEq τ] [DecidableEq ℓ] [DecidableEq ο] {s s' : State τ ℓ ο ν ρ} {t : τ}
  {e : Event τ ℓ ο ρ}

/-- A step goes on with one thread. -/
theorem next_step (hs : step s t = some (e, s')) :
    Thread.Next (s'.thread t) (s.thread t) ∧ ∀ u, u ≠ t → s'.thread u = s.thread u := by
  cases effect_step hs with
  | called call todo hth =>
      refine ⟨?_, fun u hu => setThread_of_ne hu⟩
      rw [setThread_self, hth]
      exact .called call todo
  | entered l rest held todo hth hfree =>
      refine ⟨?_, fun u hu => setThread_of_ne hu⟩
      rw [setThread_self, hth]
      exact .entered l rest held todo
  | left l current held todo hth =>
      refine ⟨?_, fun u hu => setThread_of_ne hu⟩
      rw [setThread_self, hth]
      cases current with
      | none => exact .leftAfter l held todo
      | some rest => exact .left l rest held todo
  | accessed o change next held todo hth =>
      refine ⟨?_, fun u hu => setThread_of_ne hu⟩
      rw [setThread_self, hth]
      exact .accessed o change next _ held todo
  | returned result held todo hth =>
      refine ⟨?_, fun u hu => setThread_of_ne hu⟩
      rw [setThread_self, hth]
      exact .returned result held todo

/-- **No run goes on for ever**, whatever order the locks are taken in. -/
theorem halts [Finite τ] (s : State τ ℓ ο ν ρ) : Halts step s :=
  halts_of_components wellFounded_next State.thread (fun _ t _ _ hs => ⟨t, next_step hs⟩) s

/-! ## An order for all locks -/

/-- In a call that is in the blocks of `held`, every lock that it does not have yet ranks above all
that it has. -/
def Block.Ordered {κ : Type*} [LT κ] (rank : ℓ → κ) : List ℓ → Block ℓ ο ν ρ → Prop
  | _, .done _ => True
  | held, .enter l rest =>
      (l ∈ held ∨ ∀ m ∈ held, rank m < rank l) ∧ rest.Ordered rank (l :: held)
  | [], .leave _ => False
  | _ :: held, .leave rest => rest.Ordered rank held
  | held, .access _ _ next => ∀ v, (next v).Ordered rank held

omit [DecidableEq ℓ] [DecidableEq ο] in
/-- What is left of a call takes its locks in order, too. -/
theorem Block.Ordered.hereditary {κ : Type*} [LT κ] (rank : ℓ → κ) :
    Hereditary fun held (rest : Block ℓ ο ν ρ) => rest.Ordered rank held where
  enter _ _ _ h := h.2
  leave _ _ _ h := h
  access held o change next v h := by
    rw [Block.Ordered] at h
    exact h v

variable {κ : Type*} {rank : ℓ → κ}

/-- The lock that a thread waits for, or takes next. -/
def Thread.wants (th : Thread ℓ ο ν ρ) : Option ℓ :=
  match th.current with
  | some (.enter l _) => if l ∈ th.held then none else some l
  | _ => none

omit [DecidableEq ο] in
/-- A thread wants a lock when its next step is to enter a block of it, and it is not inside one. -/
theorem wants_eq_some {th : Thread ℓ ο ν ρ} {l : ℓ} (h : th.wants = some l) :
    l ∉ th.held ∧ ∃ rest, th.current = some (.enter l rest) := by
  rw [Thread.wants] at h
  split at h
  · next m rest hcurrent =>
    split at h
    · cases h
    · next hm =>
      cases h
      exact ⟨hm, rest, hcurrent⟩
  · cases h

/-- A thread cannot go on if it has finished or waits for a lock that another thread has. -/
theorem stuck_cases [LT κ] (hok : HolderOk s)
    (hall : (s.thread t).All fun held rest => rest.Ordered rank held) (hstuck : step s t = none) :
    (s.thread t).Finished ∨ ∃ u, WaitFor.WaitsFor s.holder (fun t => (s.thread t).wants) t u := by
  have hholder := fun l => hok l t
  unfold step at hstuck
  generalize hth : s.thread t = th at hall hstuck hholder
  obtain ⟨held, current, todo⟩ := th
  cases current with
  | none =>
      cases held with
      | cons l held => simp [State.exit, hth] at hstuck
      | nil =>
          cases todo with
          | nil => exact Or.inl rfl
          | cons call todo => cases hstuck
  | some now =>
      cases now with
      | done result => cases hstuck
      | access o change next => cases hstuck
      | leave rest =>
          have hleave := hall.1 _ rfl
          cases held with
          | nil => exact hleave.elim
          | cons l held => simp [State.exit, hth] at hstuck
      | enter l rest =>
          simp only at hstuck
          split at hstuck
          · cases hstuck
          · next hfree =>
            rw [not_or] at hfree
            obtain ⟨u, hu⟩ := Option.ne_none_iff_exists'.mp hfree.1
            refine Or.inr ⟨u, l, ?_, hu⟩
            have hl : l ∉ held := fun hmem => hfree.2 ((hholder l).mpr hmem)
            simp only [hth, Thread.wants, if_neg hl]

omit [DecidableEq τ] [DecidableEq ο] in
/-- What is held ranks below what is waited for. -/
theorem waitFor_ordered [LT κ] (hok : HolderOk s)
    (hall : ∀ t, (s.thread t).All fun held rest => rest.Ordered rank held) :
    WaitFor.Ordered s.holder (fun t => (s.thread t).wants) rank := by
  intro t l m hwants hheld
  obtain ⟨hl, rest, hcurrent⟩ := wants_eq_some hwants
  have hnow := (hall t).1 _ hcurrent
  exact hnow.1.resolve_left hl m ((hok m t).mp hheld)

/-- **An order for all locks.** -/
theorem finished_of_ordered [Finite τ] [LinearOrder κ] (rank : ℓ → κ) {m : ο → ν}
    {calls : τ → List (Block ℓ ο ν ρ)} {h : List (Event τ ℓ ο ρ)}
    (hord : ∀ t, ∀ call ∈ calls t, call.Ordered rank [])
    (hr : Run Synchronized.step anyStep (start m calls) h s)
    (hstuck : ∀ t, Synchronized.step s t = none) (t : τ) : (s.thread t).Finished := by
  obtain ⟨hok, hall⟩ : HolderOk s ∧
      ∀ t, (s.thread t).All fun held rest => rest.Ordered rank held := by
    refine hr.invariant (fun _ s => HolderOk s ∧ ∀ t, (s.thread t).All fun held rest =>
      rest.Ordered rank held) ⟨.start m calls, fun t => ⟨nofun, hord t⟩⟩ ?_
    rintro _ s t e s' ⟨hok, hall⟩ _ hs
    have heffect := effect_step hs
    exact ⟨hok.step heffect, all_step (Block.Ordered.hereditary rank) hall heffect⟩
  refine WaitFor.all_done (waitFor_ordered hok hall) (WaitFor.Holds.finite hok)
    (fun l t hl hfinished => ?_) (fun t => stuck_cases hok (hall t) (hstuck t)) t
  have hmem := (hok l t).mp hl
  rw [hfinished] at hmem
  cases hmem

/-- A thread begins a call, and enters the block around it. -/
theorem run_begin {l : ℓ} {rest : Block ℓ ο ν ρ} {todo : List (Block ℓ ο ν ρ)}
    (hth : s.thread t = ⟨[], none, .enter l rest :: todo⟩) (hfree : s.holder l = none) :
    Run step anyStep s [.called t, .entered t l]
      ({ s with holder := Function.update s.holder l (some t) }.setThread t
        ⟨[l], some rest, todo⟩) := by
  have hcalled : step s t =
      some (.called t, s.setThread t ⟨[], some (.enter l rest), todo⟩) := by
    rw [step, hth]
  have hentered : step (s.setThread t ⟨[], some (.enter l rest), todo⟩) t =
      some (.entered t l, { s with holder := Function.update s.holder l (some t) }.setThread t
        ⟨[l], some rest, todo⟩) := by
    rw [step, setThread_self]
    simp [State.setThread, hfree]
  exact (Run.nil.snoc trivial hcalled).snoc trivial hentered

/-- A thread that waits for a lock of another one. -/
theorem step_eq_none {l : ℓ} {rest : Block ℓ ο ν ρ} (hcurrent : (s.thread t).current =
    some (.enter l rest)) {u : τ} (hu : u ≠ t) (hheld : s.holder l = some u) : step s t = none := by
  rw [step, hcurrent]
  simp [hheld, hu]

/-- Two threads that enter two blocks in opposite orders may wait for each other. -/
theorem exists_deadlock {u : τ} (hu : u ≠ t) {l l' : ℓ} (hl : l' ≠ l) {rest rest' : Block ℓ ο ν ρ}
    {todo todo' : List (Block ℓ ο ν ρ)}
    (ht : s.thread t = ⟨[], none, .enter l (.enter l' rest) :: todo⟩)
    (hu' : s.thread u = ⟨[], none, .enter l' (.enter l rest') :: todo'⟩) (hfree : s.holder l = none)
    (hfree' : s.holder l' = none) :
    ∃ h s', Run step anyStep s h s' ∧ s'.thread t = ⟨[l], some (.enter l' rest), todo⟩ ∧
      s'.thread u = ⟨[l'], some (.enter l rest'), todo'⟩ ∧ step s' t = none ∧ step s' u = none := by
  have hr := run_begin ht hfree
  generalize hs₁ : ({ s with holder := Function.update s.holder l (some t) }.setThread t
    ⟨[l], some (.enter l' rest), todo⟩) = s₁ at hr
  have hthread : s₁.thread u = ⟨[], none, .enter l' (.enter l rest') :: todo'⟩ := by
    rw [← hs₁, setThread_of_ne hu]
    exact hu'
  have hholder : s₁.holder = Function.update s.holder l (some t) := hs₁ ▸ rfl
  have hr' := run_begin hthread (by rw [hholder, Function.update_of_ne hl, hfree'])
  generalize hs₂ : ({ s₁ with holder := Function.update s₁.holder l' (some u) }.setThread u
    ⟨[l'], some (.enter l rest'), todo'⟩) = s₂ at hr'
  have hthread₂ : s₂.thread t = ⟨[l], some (.enter l' rest), todo⟩ := by
    rw [← hs₂, setThread_of_ne hu.symm, ← hs₁]
    exact setThread_self
  have hthread₂' : s₂.thread u = ⟨[l'], some (.enter l rest'), todo'⟩ := by
    rw [← hs₂]
    exact setThread_self
  have hholder₂ : s₂.holder = Function.update s₁.holder l' (some u) := hs₂ ▸ rfl
  refine ⟨_, s₂, hr.trans hr', hthread₂, hthread₂', ?_, ?_⟩
  · refine step_eq_none (by rw [hthread₂]) hu ?_
    rw [hholder₂, Function.update_self]
  · refine step_eq_none (by rw [hthread₂']) hu.symm ?_
    rw [hholder₂, Function.update_of_ne hl.symm, hholder, Function.update_self]

/-! ## Calls of methods with the locks held -/

/-- What is left of a call enters only blocks whose locks it has already. -/
def Block.Inside (guard : ο → ℓ) : List ℓ → Block ℓ ο ν ρ → Prop
  | _, .done _ => True
  | held, .enter l rest => l ∈ held ∧ rest.Inside guard (l :: held)
  | [], .leave _ => False
  | l :: held, .leave rest => l ∈ held ∧ rest.Inside guard held
  | held, .access o _ next => guard o ∈ held ∧ ∀ v, (next v).Inside guard held

variable {guard : ο → ℓ} {held : List ℓ} {rest : Block ℓ ο ν ρ}

omit [DecidableEq ℓ] [DecidableEq ο] in
/-- A method that is called with its locks held gives none of them back. -/
theorem Block.Inside.twoPhase (h : rest.Inside guard held) : rest.TwoPhase guard held := by
  induction rest generalizing held with
  | done result => trivial
  | enter l rest ih => exact ih h.2
  | leave rest ih =>
      cases held with
      | nil => exact h.elim
      | cons l held => exact ⟨h.1, ih h.2⟩
  | access o change next ih =>
      rw [Block.Inside] at h
      rw [Block.TwoPhase]
      exact ⟨h.1, fun v => ih v (h.2 v)⟩

omit [DecidableEq ℓ] [DecidableEq ο] in
/-- Nor does it take another. -/
theorem Block.Inside.ordered [LT κ] (h : rest.Inside guard held) : rest.Ordered rank held := by
  induction rest generalizing held with
  | done result => trivial
  | enter l rest ih => exact ⟨Or.inl h.1, ih h.2⟩
  | leave rest ih =>
      cases held with
      | nil => exact h.elim
      | cons l held => exact ih h.2
  | access o change next ih =>
      rw [Block.Inside] at h
      rw [Block.Ordered]
      exact fun v => ih v (h.2 v)

end Ends

/-! ## While the others stand still -/

section Alone

variable {τ ℓ ο ν ρ : Type*} [DecidableEq τ] [DecidableEq ℓ] [DecidableEq ο]
  {s s' : State τ ℓ ο ν ρ} {t : τ} {held : List ℓ} {rest : Block ℓ ο ν ρ}
  {todo : List (Block ℓ ο ν ρ)}

/-- From `s` thread `t` comes to `th`, while the others stand still. -/
structure Alone (s : State τ ℓ ο ν ρ) (t : τ) (h : List (Event τ ℓ ο ρ)) (th : Thread ℓ ο ν ρ)
    (v : ο → ν) (s' : State τ ℓ ο ν ρ) : Prop where
  run : Run step anyStep s h s'
  holderOk : HolderOk s'
  self : s'.thread t = th
  others : ∀ u, u ≠ t → s'.thread u = s.thread u
  value : s'.value = v

theorem Alone.refl (hok : HolderOk s) : Alone s t [] (s.thread t) s.value s :=
  ⟨.nil, hok, rfl, fun _ _ => rfl, rfl⟩

/-- One stretch after the other. -/
theorem Alone.trans {h₁ h₂ : List (Event τ ℓ ο ρ)} {th₁ th₂ : Thread ℓ ο ν ρ} {v₁ v₂ : ο → ν}
    {s₁ s₂ : State τ ℓ ο ν ρ} (h : Alone s t h₁ th₁ v₁ s₁) (h' : Alone s₁ t h₂ th₂ v₂ s₂) :
    Alone s t (h₁ ++ h₂) th₂ v₂ s₂ :=
  ⟨h.run.trans h'.run, h'.holderOk, h'.self, fun u hu => (h'.others u hu).trans (h.others u hu),
    h'.value⟩

/-- One step. -/
theorem alone_of_step {e : Event τ ℓ ο ρ} {th : Thread ℓ ο ν ρ} {v : ο → ν} (hok : HolderOk s)
    (hs : step s t = some (e, s')) (hself : s'.thread t = th) (hvalue : s'.value = v) :
    ∃ s', Alone s t [e] th v s' :=
  ⟨s', Run.nil.snoc trivial hs, hok.step (effect_step hs), hself, (next_step hs).2, hvalue⟩

/-- A call begins. -/
theorem alone_call {call : Block ℓ ο ν ρ} (hok : HolderOk s)
    (hth : s.thread t = ⟨[], none, call :: todo⟩) :
    ∃ s', Alone s t [.called t] ⟨[], some call, todo⟩ s.value s' := by
  have hs : step s t = some (.called t, s.setThread t ⟨[], some call, todo⟩) := by
    rw [step, hth]
  exact alone_of_step hok hs setThread_self rfl

/-- A block is entered whose lock nobody else has. -/
theorem alone_enter {l : ℓ} (hok : HolderOk s)
    (hth : s.thread t = ⟨held, some (.enter l rest), todo⟩)
    (hfree : ∀ u, u ≠ t → l ∉ (s.thread u).held) :
    ∃ s', Alone s t [.entered t l] ⟨l :: held, some rest, todo⟩ s.value s' := by
  have hholder : s.holder l = none ∨ s.holder l = some t := by
    cases hl : s.holder l with
    | none => exact Or.inl rfl
    | some u =>
        by_cases hu : u = t
        · exact Or.inr (congrArg some hu)
        · exact absurd ((hok l u).mp hl) (hfree u hu)
  have hs : step s t = some (.entered t l,
      { s with holder := Function.update s.holder l (some t) }.setThread t
        ⟨l :: held, some rest, todo⟩) := by
    rw [step, hth]
    simp only [if_pos hholder]
  exact alone_of_step hok hs setThread_self rfl

/-- A variable is accessed. -/
theorem alone_access {o : ο} {change : ν → ν} {next : ν → Block ℓ ο ν ρ} (hok : HolderOk s)
    (hth : s.thread t = ⟨held, some (.access o change next), todo⟩) :
    ∃ s', Alone s t [.accessed t o] ⟨held, some (next (s.value o)), todo⟩
      (Function.update s.value o (change (s.value o))) s' := by
  have hs : step s t = some (.accessed t o,
      { s with value := Function.update s.value o (change (s.value o)) }.setThread t
        ⟨held, some (next (s.value o)), todo⟩) := by
    rw [step, hth]
  exact alone_of_step hok hs setThread_self rfl

/-- A block is left. -/
theorem step_exit {l : ℓ} (current : Option (Block ℓ ο ν ρ))
    (hth : s.thread t = ⟨l :: held, current.map .leave, todo⟩) :
    step s t = some (.left t l,
      { s with
        holder := if l ∈ held then s.holder else Function.update s.holder l none }.setThread t
          ⟨held, current, todo⟩) := by
  cases current with
  | none =>
      rw [step, hth]
      simp only [Option.map_none, State.exit, hth]
  | some rest =>
      rw [step, hth]
      simp only [Option.map_some, State.exit, hth]

/-- A block is left in the course of the call. -/
theorem alone_leave {l : ℓ} (hok : HolderOk s)
    (hth : s.thread t = ⟨l :: held, some (.leave rest), todo⟩) :
    ∃ s', Alone s t [.left t l] ⟨held, some rest, todo⟩ s.value s' :=
  alone_of_step hok (step_exit (some rest) hth) setThread_self rfl

/-- The call returns. -/
theorem alone_return {result : ρ} (hok : HolderOk s)
    (hth : s.thread t = ⟨held, some (.done result), todo⟩) :
    ∃ s', Alone s t [.returned t result] ⟨held, none, todo⟩ s.value s' := by
  have hs : step s t = some (.returned t result, s.setThread t ⟨held, none, todo⟩) := by
    rw [step, hth]
  exact alone_of_step hok hs setThread_self rfl

/-- After the return of a call the thread leaves its blocks. -/
theorem alone_unwind (hok : HolderOk s) (hth : s.thread t = ⟨held, none, todo⟩) :
    ∃ h s', Alone s t h ⟨[], none, todo⟩ s.value s' ∧ h.filterMap Event.result = [] := by
  induction held generalizing s with
  | nil => exact ⟨[], s, hth ▸ .refl hok, rfl⟩
  | cons l held ih =>
      have hstep := step_exit none hth
      obtain ⟨s₁, h₁⟩ := alone_of_step hok hstep setThread_self rfl
      obtain ⟨h, s', h₂, hresult⟩ := ih h₁.holderOk h₁.self
      rw [h₁.value] at h₂
      exact ⟨_, s', h₁.trans h₂, hresult⟩

/-- The locks that a call enters. -/
def Block.Uses (L : ℓ → Prop) : Block ℓ ο ν ρ → Prop
  | .done _ => True
  | .enter l rest => L l ∧ rest.Uses L
  | .leave rest => rest.Uses L
  | .access _ _ next => ∀ v, (next v).Uses L

/-- **A call on its own.**  If nobody else has a lock that it enters, a thread can go on to the end
of its call, which does what it does at once. -/
theorem alone_finish {guard : ο → ℓ} {L : ℓ → Prop} (huses : rest.Uses L)
    (htwo : rest.TwoPhase guard held) (hok : HolderOk s)
    (hth : s.thread t = ⟨held, some rest, todo⟩)
    (hfree : ∀ l, L l → ∀ u, u ≠ t → l ∉ (s.thread u).held) :
    ∃ h s', Alone s t h ⟨[], none, todo⟩ (rest.run s.value).2 s' ∧
      h.filterMap Event.result = [(t, (rest.run s.value).1)] := by
  induction rest generalizing s held with
  | done result =>
      obtain ⟨s₁, h₁⟩ := alone_return hok hth
      obtain ⟨h, s', h₂, hresult⟩ := alone_unwind h₁.holderOk h₁.self
      refine ⟨_, s', h₁.trans (h₁.value ▸ h₂), ?_⟩
      rw [List.filterMap_append, hresult]
      rfl
  | enter l rest ih =>
      obtain ⟨s₁, h₁⟩ := alone_enter hok hth (hfree l huses.1)
      obtain ⟨h, s', h₂, hresult⟩ := ih huses.2 htwo h₁.holderOk h₁.self fun l hl u hu => by
        rw [h₁.others u hu]
        exact hfree l hl u hu
      rw [h₁.value] at h₂ hresult
      exact ⟨_, s', h₁.trans h₂, hresult⟩
  | leave rest ih =>
      cases held with
      | nil => exact htwo.elim
      | cons l held =>
          obtain ⟨s₁, h₁⟩ := alone_leave hok hth
          obtain ⟨h, s', h₂, hresult⟩ := ih huses htwo.2 h₁.holderOk h₁.self fun l hl u hu => by
            rw [h₁.others u hu]
            exact hfree l hl u hu
          rw [h₁.value] at h₂ hresult
          exact ⟨_, s', h₁.trans h₂, hresult⟩
  | access o change next ih =>
      obtain ⟨s₁, h₁⟩ := alone_access hok hth
      have hnext : (next (s.value o)).TwoPhase guard held := by
        rw [Block.TwoPhase] at htwo
        exact htwo.2 _
      obtain ⟨h, s', h₂, hresult⟩ := ih _ (huses _) hnext h₁.holderOk h₁.self fun l hl u hu => by
        rw [h₁.others u hu]
        exact hfree l hl u hu
      rw [h₁.value] at h₂ hresult
      exact ⟨_, s', h₁.trans h₂, hresult⟩

omit [DecidableEq ℓ] [DecidableEq ο] in
/-- Inside such blocks no other locks are used. -/
theorem Block.Inside.uses {guard : ο → ℓ} {L : ℓ → Prop} (h : rest.Inside guard held)
    (hL : ∀ l ∈ held, L l) : rest.Uses L := by
  induction rest generalizing held with
  | done result => trivial
  | enter l rest ih =>
      refine ⟨hL l h.1, ih h.2 fun m hm => ?_⟩
      rcases List.mem_cons.mp hm with rfl | hm
      · exact hL m h.1
      · exact hL m hm
  | leave rest ih =>
      cases held with
      | nil => exact h.elim
      | cons l held => exact ih h.2 fun m hm => hL m (List.mem_cons_of_mem l hm)
  | access o change next ih =>
      rw [Block.Inside] at h
      exact fun v => ih v (h.2 v) hL

end Alone

end Synchronized
