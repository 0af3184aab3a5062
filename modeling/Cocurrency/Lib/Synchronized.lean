/-
# Synchronized blocks

Threads that make calls one after the other.  What a call does is a tree of single steps (`Block`):
it enters `synchronized` blocks, which may be nested, leaves them, and accesses variables; when it
returns or raises an exception all its blocks are left.  Locks are reentrant.
-/
import Cocurrency.Lib.Family
import Cocurrency.Lib.Run
import Cocurrency.Lib.WaitFor

namespace Synchronized

/-! ## Calls -/

/-- What a call does, step by step. -/
inductive Block (ℓ ο ν ρ : Type*) where
  /-- The call returns, or raises an exception. -/
  | done (result : ρ)
  | enter (l : ℓ) (rest : Block ℓ ο ν ρ)
  /-- The innermost block is left. -/
  | leave (rest : Block ℓ ο ν ρ)
  | access (o : ο) (change : ν → ν) (next : ν → Block ℓ ο ν ρ)

/-- A thread. -/
structure Thread (ℓ ο ν ρ : Type*) where
  /-- The locks of the blocks that it is in, the innermost one first. -/
  held : List ℓ
  /-- What is left of the call that it makes, until that returns. -/
  current : Option (Block ℓ ο ν ρ)
  todo : List (Block ℓ ο ν ρ)

/-- The variables, who has which lock, and the threads. -/
structure State (τ ℓ ο ν ρ : Type*) where
  value : ο → ν
  holder : ℓ → Option τ
  thread : τ → Thread ℓ ο ν ρ

/-- What a step shows. -/
inductive Event (τ ℓ ο ρ : Type*) where
  | called (t : τ)
  | entered (t : τ) (l : ℓ)
  | left (t : τ) (l : ℓ)
  | accessed (t : τ) (o : ο)
  | returned (t : τ) (result : ρ)
  deriving DecidableEq

section Steps

variable {τ ℓ ο ν ρ : Type*}

/-- All threads are before their first call. -/
def start (m : ο → ν) (calls : τ → List (Block ℓ ο ν ρ)) : State τ ℓ ο ν ρ :=
  ⟨m, fun _ => none, fun t => ⟨[], none, calls t⟩⟩

/-- It has made all its calls. -/
def Thread.Finished (th : Thread ℓ ο ν ρ) : Prop := th = ⟨[], none, []⟩

variable [DecidableEq τ] [DecidableEq ℓ] [DecidableEq ο]

/-- Thread `t` goes on to `th`. -/
def State.setThread (s : State τ ℓ ο ν ρ) (t : τ) (th : Thread ℓ ο ν ρ) : State τ ℓ ο ν ρ :=
  { s with thread := Function.update s.thread t th }

/-- Thread `t` leaves its innermost block; the lock is free if it is in no other one of it. -/
def State.exit (s : State τ ℓ ο ν ρ) (t : τ) (current : Option (Block ℓ ο ν ρ)) :
    Option (Event τ ℓ ο ρ × State τ ℓ ο ν ρ) :=
  match (s.thread t).held with
  | [] => none
  | l :: held =>
      let holder := if l ∈ held then s.holder else Function.update s.holder l none
      some (.left t l,
        { s with holder := holder }.setThread t ⟨held, current, (s.thread t).todo⟩)

/-- The next step of thread `t`, unless it has finished or waits. -/
def step (s : State τ ℓ ο ν ρ) (t : τ) : Option (Event τ ℓ ο ρ × State τ ℓ ο ν ρ) :=
  match (s.thread t).current with
  | some (.done result) =>
      some (.returned t result, s.setThread t { s.thread t with current := none })
  | some (.enter l rest) =>
      if s.holder l = none ∨ s.holder l = some t then
        some (.entered t l,
          { s with holder := Function.update s.holder l (some t) }.setThread t
            ⟨l :: (s.thread t).held, some rest, (s.thread t).todo⟩)
      else none
  | some (.leave rest) => s.exit t (some rest)
  | some (.access o change next) =>
      some (.accessed t o,
        { s with value := Function.update s.value o (change (s.value o)) }.setThread t
          { s.thread t with current := some (next (s.value o)) })
  | none =>
      match (s.thread t).held, (s.thread t).todo with
      | _ :: _, _ => s.exit t none
      | [], call :: todo => some (.called t, s.setThread t ⟨[], some call, todo⟩)
      | [], [] => none

/-- What a step of thread `t` does. -/
inductive Effect (s : State τ ℓ ο ν ρ) (t : τ) : Event τ ℓ ο ρ → State τ ℓ ο ν ρ → Prop
  | called (call : Block ℓ ο ν ρ) (todo : List (Block ℓ ο ν ρ)) :
      s.thread t = ⟨[], none, call :: todo⟩ →
      Effect s t (.called t) (s.setThread t ⟨[], some call, todo⟩)
  | entered (l : ℓ) (rest : Block ℓ ο ν ρ) (held : List ℓ) (todo : List (Block ℓ ο ν ρ)) :
      s.thread t = ⟨held, some (.enter l rest), todo⟩ → s.holder l = none ∨ s.holder l = some t →
      Effect s t (.entered t l)
        ({ s with holder := Function.update s.holder l (some t) }.setThread t
          ⟨l :: held, some rest, todo⟩)
  | left (l : ℓ) (current : Option (Block ℓ ο ν ρ)) (held : List ℓ)
      (todo : List (Block ℓ ο ν ρ)) :
      s.thread t = ⟨l :: held, current.map .leave, todo⟩ →
      Effect s t (.left t l)
        ({ s with holder := if l ∈ held then s.holder else
            Function.update s.holder l none }.setThread t ⟨held, current, todo⟩)
  | accessed (o : ο) (change : ν → ν) (next : ν → Block ℓ ο ν ρ) (held : List ℓ)
      (todo : List (Block ℓ ο ν ρ)) :
      s.thread t = ⟨held, some (.access o change next), todo⟩ →
      Effect s t (.accessed t o)
        ({ s with value := Function.update s.value o (change (s.value o)) }.setThread t
          ⟨held, some (next (s.value o)), todo⟩)
  | returned (result : ρ) (held : List ℓ) (todo : List (Block ℓ ο ν ρ)) :
      s.thread t = ⟨held, some (.done result), todo⟩ →
      Effect s t (.returned t result) (s.setThread t ⟨held, none, todo⟩)

variable {s s' : State τ ℓ ο ν ρ} {t : τ} {e : Event τ ℓ ο ρ}

/-- What leaving a block does. -/
theorem effect_exit (current : Option (Block ℓ ο ν ρ))
    (hcurrent : (s.thread t).current = current.map .leave)
    (hs : s.exit t current = some (e, s')) : Effect s t e s' := by
  rw [State.exit] at hs
  generalize hth : s.thread t = th at hcurrent hs
  obtain ⟨held, now, todo⟩ := th
  cases hcurrent
  cases held with
  | nil => cases hs
  | cons l held =>
      cases hs
      exact .left l current held todo hth

/-- What a step does. -/
theorem effect_step (hs : step s t = some (e, s')) : Effect s t e s' := by
  unfold step at hs
  generalize hth : s.thread t = th at hs
  obtain ⟨held, current, todo⟩ := th
  cases current with
  | none =>
      cases held with
      | cons l held => exact effect_exit none (by rw [hth]; rfl) hs
      | nil =>
          cases todo with
          | nil => cases hs
          | cons call todo =>
              cases hs
              exact .called call todo hth
  | some now =>
      cases now with
      | done result =>
          cases hs
          exact .returned result held todo hth
      | enter l rest =>
          simp only at hs
          split at hs
          · next hfree =>
            cases hs
            exact .entered l rest held todo hth hfree
          · cases hs
      | leave rest => exact effect_exit (some rest) (by rw [hth]; rfl) hs
      | access o change next =>
          cases hs
          exact .accessed o change next held todo hth

end Steps

/-! ## Who holds what -/

section Holders

variable {τ ℓ ο ν ρ : Type*}

/-- The holder of a lock is inside a block of it. -/
def HolderOk (s : State τ ℓ ο ν ρ) : Prop := ∀ l t, s.holder l = some t ↔ l ∈ (s.thread t).held

/-- At the start no lock is held. -/
theorem HolderOk.start (m : ο → ν) (calls : τ → List (Block ℓ ο ν ρ)) :
    HolderOk (start m calls) := fun _ _ => iff_of_false nofun List.not_mem_nil

/-- A lock has one holder. -/
theorem HolderOk.unique {s : State τ ℓ ο ν ρ} (hok : HolderOk s) {l : ℓ} {t u : τ}
    (ht : l ∈ (s.thread t).held) (hu : l ∈ (s.thread u).held) : t = u := by
  have htu := ((hok l t).mpr ht).symm.trans ((hok l u).mpr hu)
  exact Option.some.inj htu

variable [DecidableEq τ] [DecidableEq ℓ] [DecidableEq ο] {s s' : State τ ℓ ο ν ρ} {t : τ}
  {e : Event τ ℓ ο ρ}

omit [DecidableEq ℓ] [DecidableEq ο] in
/-- A step that has to do with no lock. -/
theorem HolderOk.setThread (hok : HolderOk s) {th : Thread ℓ ο ν ρ}
    (hheld : th.held = (s.thread t).held) (v : ο → ν) :
    HolderOk ({ s with value := v }.setThread t th) := by
  intro l u
  show s.holder l = some u ↔ l ∈ (Function.update s.thread t th u).held
  rw [hok]
  by_cases hu : u = t
  · subst hu
    rw [Function.update_self, hheld]
  · rw [Function.update_of_ne hu]

omit [DecidableEq ο] in
/-- The lock `l` goes to `t`, or comes back from it. -/
theorem HolderOk.set (hok : HolderOk s) {l : ℓ} {who : Option τ} {th : Thread ℓ ο ν ρ}
    (hself : ∀ m, m ∈ th.held ↔ (m ≠ l ∧ m ∈ (s.thread t).held) ∨ (m = l ∧ who = some t))
    (hother : ∀ u, u ≠ t → who ≠ some u ∧ l ∉ (s.thread u).held) :
    HolderOk ({ s with holder := Function.update s.holder l who }.setThread t th) := by
  refine WaitFor.Holds.update hok (fun m => ?_) (fun u hu => ?_) hother
  · show m ∈ (Function.update s.thread t th t).held ↔ _
    rw [Function.update_self]
    exact hself m
  · show (Function.update s.thread t th u).held = _
    rw [Function.update_of_ne hu]

/-- **The step lemma** for the holders. -/
theorem HolderOk.step (hok : HolderOk s) (heffect : Effect s t e s') : HolderOk s' := by
  cases heffect with
  | called call todo hth => exact hok.setThread (by rw [hth]) s.value
  | accessed o change next held todo hth => exact hok.setThread (by rw [hth]) _
  | returned result held todo hth => exact hok.setThread (by rw [hth]) s.value
  | entered l rest held todo hth hfree =>
      refine hok.set (fun m => ?_) fun u hu => ⟨?_, fun hmem => ?_⟩
      · rw [hth]
        by_cases hm : m = l <;> simp [hm]
      · simpa using Ne.symm hu
      · -- `l` is free, or `t` has it
        have hholder := (hok l u).mpr hmem
        rcases hfree with hfree | hfree
        · rw [hholder] at hfree
          cases hfree
        · rw [hholder, Option.some.injEq] at hfree
          exact hu hfree
  | left l current held todo hth =>
      have hl : l ∈ (s.thread t).held := by
        rw [hth]
        exact List.mem_cons_self
      by_cases hmem : l ∈ held
      · rw [if_pos hmem]
        intro m u
        show s.holder m = some u ↔ m ∈ (Function.update s.thread t _ u).held
        rw [hok]
        by_cases hu : u = t
        · subst hu
          rw [Function.update_self, hth, List.mem_cons, or_iff_right_of_imp]
          rintro rfl
          exact hmem
        · rw [Function.update_of_ne hu]
      · rw [if_neg hmem]
        refine hok.set (fun m => ?_) fun u hu => ⟨nofun, fun hother => hu (hok.unique hother hl)⟩
        rw [hth]
        by_cases hm : m = l <;> simp [hm, hmem]

/-- The holders are right in every run. -/
theorem holderOk_run {m : ο → ν} {calls : τ → List (Block ℓ ο ν ρ)} {h : List (Event τ ℓ ο ρ)}
    (hr : Run Synchronized.step anyStep (Synchronized.start m calls) h s) : HolderOk s :=
  hr.invariant (fun _ s => HolderOk s) (.start m calls) fun _ _ _ _ _ hok _ hs =>
    hok.step (effect_step hs)

omit [DecidableEq τ] [DecidableEq ℓ] [DecidableEq ο] in
/-- Where all have made their calls every lock is free. -/
theorem HolderOk.holder_eq_none (hok : HolderOk s) (hfinished : ∀ t, (s.thread t).Finished)
    (l : ℓ) : s.holder l = none := by
  cases hholder : s.holder l with
  | none => rfl
  | some t =>
      have hmem := (hok l t).mp hholder
      rw [hfinished t] at hmem
      cases hmem

end Holders

/-! ## What holds of all that is to come -/

section All

variable {τ ℓ ο ν ρ : Type*}

/-- A property of what is left of a call, and of the locks held, that a step keeps. -/
structure Hereditary (P : List ℓ → Block ℓ ο ν ρ → Prop) : Prop where
  enter : ∀ held l rest, P held (.enter l rest) → P (l :: held) rest
  leave : ∀ l held rest, P (l :: held) (.leave rest) → P held rest
  access : ∀ held o change next v, P held (.access o change next) → P held (next v)

/-- It holds of the call that the thread makes, and of those to come. -/
def Thread.All (P : List ℓ → Block ℓ ο ν ρ → Prop) (th : Thread ℓ ο ν ρ) : Prop :=
  (∀ rest ∈ th.current, P th.held rest) ∧ ∀ call ∈ th.todo, P [] call

variable [DecidableEq τ] [DecidableEq ℓ] [DecidableEq ο] {s s' : State τ ℓ ο ν ρ} {t : τ}
  {e : Event τ ℓ ο ρ}

omit [DecidableEq ℓ] [DecidableEq ο] in
/-- Of the thread that makes the step, and of the others. -/
theorem State.forall_setThread {s : State τ ℓ ο ν ρ} {th : Thread ℓ ο ν ρ}
    {P : τ → Thread ℓ ο ν ρ → Prop} (hself : P t th) (hothers : ∀ u, u ≠ t → P u (s.thread u)) :
    ∀ u, P u ((s.setThread t th).thread u) :=
  (Function.forall_update_iff s.thread P).mpr ⟨hself, hothers⟩

omit [DecidableEq ℓ] [DecidableEq ο] in
theorem setThread_self {s : State τ ℓ ο ν ρ} {th : Thread ℓ ο ν ρ} :
    (s.setThread t th).thread t = th := by
  show Function.update s.thread t th t = th
  exact Function.update_self _ _ _

omit [DecidableEq ℓ] [DecidableEq ο] in
theorem setThread_of_ne {s : State τ ℓ ο ν ρ} {th : Thread ℓ ο ν ρ} {u : τ} (hu : u ≠ t) :
    (s.setThread t th).thread u = s.thread u := by
  show Function.update s.thread t th u = s.thread u
  exact Function.update_of_ne hu _ _

/-- What holds of all that is to come still holds after a step. -/
theorem all_step {P : List ℓ → Block ℓ ο ν ρ → Prop} (hP : Hereditary P)
    (hall : ∀ t, (s.thread t).All P) (heffect : Effect s t e s') : ∀ u, (s'.thread u).All P := by
  have ht := hall t
  cases heffect with
  | called call todo hth =>
      rw [hth] at ht
      refine State.forall_setThread (P := fun _ => Thread.All P) ?_ fun u _ => hall u
      refine ⟨?_, fun call' hcall => ht.2 call' (List.mem_cons_of_mem _ hcall)⟩
      rintro _ ⟨⟩
      exact ht.2 call List.mem_cons_self
  | entered l rest held todo hth hfree =>
      rw [hth] at ht
      refine State.forall_setThread (P := fun _ => Thread.All P) ?_ fun u _ => hall u
      refine ⟨?_, ht.2⟩
      rintro _ ⟨⟩
      exact hP.enter held l rest (ht.1 _ rfl)
  | left l current held todo hth =>
      rw [hth] at ht
      refine State.forall_setThread (P := fun _ => Thread.All P) ?_ fun u _ => hall u
      refine ⟨?_, ht.2⟩
      rintro rest ⟨⟩
      exact hP.leave l held rest (ht.1 _ rfl)
  | accessed o change next held todo hth =>
      rw [hth] at ht
      refine State.forall_setThread (P := fun _ => Thread.All P) ?_ fun u _ => hall u
      refine ⟨?_, ht.2⟩
      rintro _ ⟨⟩
      exact hP.access held o change next _ (ht.1 _ rfl)
  | returned result held todo hth =>
      rw [hth] at ht
      refine State.forall_setThread (P := fun _ => Thread.All P) ?_ fun u _ => hall u
      exact ⟨nofun, ht.2⟩

end All

end Synchronized
