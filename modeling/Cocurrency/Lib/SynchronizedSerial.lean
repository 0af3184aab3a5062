/-
# Calls of synchronized methods one at a time

`run_serial` : if every variable is accessed with its lock held, and a call gives no lock back
before it returns, then all happens as if the calls were made one at a time, in the order in which
they return.
-/
import Cocurrency.Lib.Synchronized

namespace Synchronized

/-! ## Calls at once -/

section AtOnce

variable {τ ℓ ο ν ρ : Type*}

/-- The call made at once: its result, and the variables after it. -/
def Block.run [DecidableEq ο] : Block ℓ ο ν ρ → (ο → ν) → ρ × (ο → ν)
  | .done result, m => (result, m)
  | .enter _ rest, m => rest.run m
  | .leave rest, m => rest.run m
  | .access o change next, m => (next (m o)).run (Function.update m o (change (m o)))

/-- In a call that is in the blocks of `held`, every variable is accessed in a block of its lock,
and a block that is left before the call returns is in an outer block of the same lock. -/
def Block.TwoPhase (guard : ο → ℓ) : List ℓ → Block ℓ ο ν ρ → Prop
  | _, .done _ => True
  | held, .enter l rest => rest.TwoPhase guard (l :: held)
  | [], .leave _ => False
  | l :: held, .leave rest => l ∈ held ∧ rest.TwoPhase guard held
  | held, .access o _ next => guard o ∈ held ∧ ∀ v, (next v).TwoPhase guard held

/-- What is left of a call keeps to it, too. -/
theorem Block.TwoPhase.hereditary (guard : ο → ℓ) :
    Hereditary fun held (rest : Block ℓ ο ν ρ) => rest.TwoPhase guard held where
  enter _ _ _ h := h
  leave _ _ _ h := h.2
  access held o change next v h := by
    rw [Block.TwoPhase] at h
    exact h.2 v

/-- The variables, and the calls that are to come. -/
structure Serial (τ ℓ ο ν ρ : Type*) where
  value : ο → ν
  todo : τ → List (Block ℓ ο ν ρ)

/-- Thread `t` makes its next call at once. -/
def Serial.step [DecidableEq τ] [DecidableEq ο] (a : Serial τ ℓ ο ν ρ) (t : τ) :
    Option ((τ × ρ) × Serial τ ℓ ο ν ρ) :=
  match a.todo t with
  | [] => none
  | call :: todo =>
      some ((t, (call.run a.value).1),
        ⟨(call.run a.value).2, Function.update a.todo t todo⟩)

/-- The calls that have returned. -/
def Event.result : Event τ ℓ ο ρ → Option (τ × ρ)
  | .returned t result => some (t, result)
  | _ => none

variable [DecidableEq ℓ]

/-- What a thread sees: `v` where it has the lock, and elsewhere what is there when nobody is in a
call. -/
def view (guard : ο → ℓ) (held : List ℓ) (v m : ο → ν) : ο → ν :=
  fun o => if guard o ∈ held then v o else m o

variable {guard : ο → ℓ} {held held' : List ℓ} {v v' m m' : ο → ν} {o : ο}

/-- What it has locked. -/
theorem view_of_mem (h : guard o ∈ held) : view guard held v m o = v o := if_pos h

/-- What it has not locked. -/
theorem view_of_not_mem (h : guard o ∉ held) : view guard held v m o = m o := if_neg h

/-- Only what is locked counts. -/
theorem view_congr (hv : ∀ o, guard o ∈ held → v o = v' o) :
    view guard held v m = view guard held v' m := by
  funext o
  by_cases h : guard o ∈ held
  · rw [view_of_mem h, view_of_mem h, hv o h]
  · rw [view_of_not_mem h, view_of_not_mem h]

/-- A change of what is locked. -/
theorem view_update [DecidableEq ο] (h : guard o ∈ held) (x : ν) :
    Function.update (view guard held v m) o x = view guard held (Function.update v o x) m := by
  funext o'
  by_cases ho : o' = o
  · subst ho
    rw [Function.update_self, view_of_mem h, Function.update_self]
  · rw [Function.update_of_ne ho, view, view, Function.update_of_ne ho]

/-- One more lock, with variables that nobody else has changed. -/
theorem view_cons {l : ℓ} (h : ∀ o, guard o = l → guard o ∉ held → v o = m o) :
    view guard (l :: held) v m = view guard held v m := by
  funext o
  by_cases hmem : guard o ∈ held
  · rw [view_of_mem hmem, view_of_mem (List.mem_cons_of_mem l hmem)]
  · rw [view_of_not_mem hmem]
    by_cases hl : guard o = l
    · rw [view_of_mem (hl ▸ List.mem_cons_self), h o hl hmem]
    · exact view_of_not_mem (by simp [hl, hmem])

/-- A lock that is there twice. -/
theorem view_of_mem_cons {l : ℓ} (h : l ∈ held) :
    view guard (l :: held) v m = view guard held v m :=
  view_cons fun _ hl hmem => absurd (hl ▸ h) hmem

end AtOnce

/-! ## One call at a time -/

section Serially

variable {τ ℓ ο ν ρ : Type*} [DecidableEq ℓ] [DecidableEq ο] {guard : ο → ℓ}

/-- What is left of a call does, with what the thread sees, what the whole call does at once. -/
def Thread.Answers (guard : ο → ℓ) (v m : ο → ν) (th : Thread ℓ ο ν ρ)
    (todo : List (Block ℓ ο ν ρ)) : Prop :=
  match th.current with
  | none => todo = th.todo
  | some rest => ∃ call, todo = call :: th.todo ∧
      ∀ m', (∀ o, guard o ∈ th.held → m' o = m o) → call.run m' = rest.run (view guard th.held v m')

/-- Only the variables whose locks it has are its concern. -/
theorem Thread.Answers.congr {th : Thread ℓ ο ν ρ} {v v' m m' : ο → ν}
    {todo : List (Block ℓ ο ν ρ)} (h : th.Answers guard v m todo)
    (hv : ∀ o, guard o ∈ th.held → v o = v' o) (hm : ∀ o, guard o ∈ th.held → m o = m' o) :
    th.Answers guard v' m' todo := by
  obtain ⟨held, current, now⟩ := th
  cases current with
  | none => exact h
  | some rest =>
      obtain ⟨call, htodo, hrun⟩ := h
      refine ⟨call, htodo, fun m'' hm'' => ?_⟩
      rw [hrun m'' fun o ho => (hm'' o ho).trans (hm o ho).symm, view_congr hv]

/-- With one more lock, whose variables nobody else has changed. -/
theorem Thread.Answers.enter {v m : ο → ν} {l : ℓ} {rest : Block ℓ ο ν ρ} {held : List ℓ}
    {todo calls : List (Block ℓ ο ν ρ)}
    (h : Thread.Answers guard v m ⟨held, some (.enter l rest), todo⟩ calls)
    (hsame : ∀ o, guard o = l → guard o ∉ held → v o = m o) :
    Thread.Answers guard v m ⟨l :: held, some rest, todo⟩ calls := by
  obtain ⟨call, hcalls, hrun⟩ := h
  refine ⟨call, hcalls, fun m' hm' => ?_⟩
  rw [hrun m' fun o ho => hm' o (List.mem_cons_of_mem l ho)]
  refine congrArg rest.run (view_cons fun o hl hmem => ?_).symm
  rw [hm' o (hl ▸ List.mem_cons_self), hsame o hl hmem]

/-- Without the innermost block, if its lock is that of an outer one, too, or the call is over. -/
theorem Thread.Answers.leave {v m : ο → ν} {l : ℓ} {current : Option (Block ℓ ο ν ρ)}
    {held : List ℓ} {todo calls : List (Block ℓ ο ν ρ)}
    (h : Thread.Answers guard v m ⟨l :: held, current.map .leave, todo⟩ calls)
    (hl : current ≠ none → l ∈ held) :
    Thread.Answers guard v m ⟨held, current, todo⟩ calls := by
  cases current with
  | none => exact h
  | some rest =>
      have hmem : l ∈ held := hl (Option.some_ne_none rest)
      obtain ⟨call, hcalls, hrun⟩ := h
      refine ⟨call, hcalls, fun m' hm' => ?_⟩
      rw [hrun m' fun o ho => ?_]
      · exact congrArg rest.run (view_of_mem_cons hmem)
      · rcases List.mem_cons.mp ho with ho | ho
        · exact hm' o (ho ▸ hmem)
        · exact hm' o ho

/-- After an access in a block of the variable's lock. -/
theorem Thread.Answers.access {v m : ο → ν} {o : ο} {change : ν → ν} {next : ν → Block ℓ ο ν ρ}
    {held : List ℓ} {todo calls : List (Block ℓ ο ν ρ)}
    (h : Thread.Answers guard v m ⟨held, some (.access o change next), todo⟩ calls)
    (hmem : guard o ∈ held) :
    Thread.Answers guard (Function.update v o (change (v o))) m ⟨held, some (next (v o)), todo⟩
      calls := by
  obtain ⟨call, hcalls, hrun⟩ := h
  refine ⟨call, hcalls, fun m' hm' => ?_⟩
  rw [hrun m' hm', Block.run, view_of_mem hmem, view_update hmem]

/-- How the threads stand to the calls at once. -/
structure Abstracts (guard : ο → ℓ) (s : State τ ℓ ο ν ρ) (a : Serial τ ℓ ο ν ρ) : Prop where
  holderOk : HolderOk s
  twoPhase : ∀ t, (s.thread t).All fun held rest => rest.TwoPhase guard held
  answers : ∀ t, (s.thread t).Answers guard s.value a.value (a.todo t)
  settled : ∀ o, (∀ t, (s.thread t).current ≠ none → guard o ∉ (s.thread t).held) →
    s.value o = a.value o

/-- At the start nobody is in a call. -/
theorem Abstracts.start {m : ο → ν} {calls : τ → List (Block ℓ ο ν ρ)}
    (htwo : ∀ t, ∀ call ∈ calls t, call.TwoPhase guard []) :
    Abstracts guard (start m calls) ⟨m, calls⟩ :=
  ⟨.start m calls, fun t => ⟨nofun, htwo t⟩, fun _ => rfl, fun _ _ => rfl⟩

variable {s s' : State τ ℓ ο ν ρ} {a : Serial τ ℓ ο ν ρ} {t : τ} {e : Event τ ℓ ο ρ}

/-- A lock that another thread has. -/
theorem Abstracts.not_held (hR : Abstracts guard s a) {l : ℓ} (ht : l ∈ (s.thread t).held) {u : τ}
    (hu : u ≠ t) : l ∉ (s.thread u).held := fun hmem => hu (hR.holderOk.unique hmem ht)

/-- What a lock guards that thread `t` may take, and does not have yet, is what is there when nobody
is in a call. -/
theorem Abstracts.settled_of_free (hR : Abstracts guard s a) {o : ο}
    (hfree : s.holder (guard o) = none ∨ s.holder (guard o) = some t)
    (hnot : guard o ∉ (s.thread t).held) : s.value o = a.value o := by
  refine hR.settled o fun u _ hu => ?_
  have hholder := (hR.holderOk _ _).mpr hu
  rcases hfree with hfree | hfree
  · rw [hholder] at hfree
    cases hfree
  · rw [hholder, Option.some.injEq] at hfree
    rw [hfree] at hu
    exact hnot hu

variable [DecidableEq τ]

/-- A step of thread `t` that changes no variable, and after which the thread is in a call, and has
the locks, wherever it was and had them before. -/
theorem Abstracts.goes (hR : Abstracts guard s a) {holder : ℓ → Option τ} {th : Thread ℓ ο ν ρ}
    (heffect : Effect s t e ({ s with holder := holder }.setThread t th))
    (hanswers : th.Answers guard s.value a.value (a.todo t))
    (hkeeps : ∀ o, (s.thread t).current ≠ none → guard o ∈ (s.thread t).held →
      th.current ≠ none ∧ guard o ∈ th.held) :
    Abstracts guard ({ s with holder := holder }.setThread t th) a where
  holderOk := hR.holderOk.step heffect
  twoPhase := all_step (Block.TwoPhase.hereditary guard) hR.twoPhase heffect
  answers := State.forall_setThread
    (P := fun u th => th.Answers guard s.value a.value (a.todo u)) hanswers fun u _ => hR.answers u
  settled o ho := hR.settled o fun u hcurrent hmem => by
    have hu := ho u
    by_cases hut : u = t
    · subst hut
      rw [setThread_self] at hu
      obtain ⟨hnow, hheld⟩ := hkeeps o hcurrent hmem
      exact hu hnow hheld
    · rw [setThread_of_ne hut] at hu
      exact hu hcurrent hmem

/-- A step of thread `t` that changes a variable whose lock it has. -/
theorem Abstracts.accesses (hR : Abstracts guard s a) {o : ο} {change : ν → ν}
    {next : ν → Block ℓ ο ν ρ} {held : List ℓ} {todo : List (Block ℓ ο ν ρ)}
    (hth : s.thread t = ⟨held, some (.access o change next), todo⟩) :
    Abstracts guard ({ s with value := Function.update s.value o (change (s.value o)) }.setThread t
      ⟨held, some (next (s.value o)), todo⟩) a := by
  have heffect := Effect.accessed (ρ := ρ) (s := s) (t := t) o change next held todo hth
  have hanswers := hR.answers t
  have hphase := (hR.twoPhase t).1
  rw [hth] at hanswers hphase
  have haccess : (Block.access o change next).TwoPhase guard held := hphase _ rfl
  rw [Block.TwoPhase] at haccess
  have hheld : guard o ∈ (s.thread t).held := by
    rw [hth]
    exact haccess.1
  refine ⟨hR.holderOk.step heffect,
    all_step (Block.TwoPhase.hereditary guard) hR.twoPhase heffect, ?_, fun o' ho => ?_⟩
  · refine State.forall_setThread
      (P := fun u th => th.Answers guard (Function.update s.value o (change (s.value o)))
        a.value (a.todo u)) (hanswers.access haccess.1) fun u hu => ?_
    refine (hR.answers u).congr (fun o' ho' => ?_) fun _ _ => rfl
    refine (Function.update_of_ne ?_ _ _).symm
    rintro rfl
    exact hR.not_held hheld hu ho'
  · have hne : o' ≠ o := by
      rintro rfl
      have ht := ho t
      rw [setThread_self] at ht
      exact ht (Option.some_ne_none _) haccess.1
    show Function.update s.value o _ o' = a.value o'
    rw [Function.update_of_ne hne]
    refine hR.settled o' fun u hcurrent => ?_
    have hu' := ho u
    by_cases hut : u = t
    · subst hut
      rw [setThread_self] at hu'
      rw [hth]
      exact hu' (Option.some_ne_none _)
    · rw [setThread_of_ne hut] at hu'
      exact hu' hcurrent

/-- A step that is not the return of a call is nothing in the serial system. -/
theorem Abstracts.silent (hR : Abstracts guard s a) (heffect : Effect s t e s')
    (hnone : e.result = none) : Abstracts guard s' a := by
  have hanswers := hR.answers t
  have hphase := (hR.twoPhase t).1
  have hstep := heffect
  cases heffect with
  | called call todo hth =>
      rw [hth] at hanswers
      refine hR.goes hstep ⟨call, hanswers, fun _ _ => rfl⟩ fun o hcurrent => ?_
      rw [hth] at hcurrent
      exact absurd rfl hcurrent
  | entered l rest held todo hth hfree =>
      rw [hth] at hanswers
      refine hR.goes hstep (hanswers.enter fun o hl hnot => ?_) fun o _ hmem => ?_
      · subst hl
        exact hR.settled_of_free hfree (by rw [hth]; exact hnot)
      · rw [hth] at hmem
        exact ⟨Option.some_ne_none rest, List.mem_cons_of_mem l hmem⟩
  | left l current held todo hth =>
      rw [hth] at hanswers hphase
      -- if the call goes on, the lock is that of an outer block, too
      have hl : current ≠ none → l ∈ held := by
        intro hne
        obtain ⟨rest, rfl⟩ := Option.ne_none_iff_exists'.mp hne
        exact (hphase _ rfl).1
      refine hR.goes hstep (hanswers.leave hl) fun o hcurrent hmem => ?_
      rw [hth] at hcurrent hmem
      have hne : current ≠ none := fun hnone => hcurrent (by rw [hnone]; rfl)
      refine ⟨hne, ?_⟩
      rcases List.mem_cons.mp hmem with hmem | hmem
      · exact hmem ▸ hl hne
      · exact hmem
  | accessed o change next held todo hth => exact hR.accesses hth
  | returned result held todo hth => cases hnone

/-- Where a call returns, the serial system makes it. -/
theorem Abstracts.visible (hR : Abstracts guard s a) {result : ρ} {held : List ℓ}
    {todo : List (Block ℓ ο ν ρ)} (hth : s.thread t = ⟨held, some (.done result), todo⟩) :
    ∃ a', a.step t = some ((t, result), a') ∧
      Abstracts guard (s.setThread t ⟨held, none, todo⟩) a' := by
  have heffect : Effect s t (.returned t result) (s.setThread t ⟨held, none, todo⟩) :=
    .returned result held todo hth
  have hanswers := hR.answers t
  rw [hth] at hanswers
  obtain ⟨call, htodo, hrun⟩ := hanswers
  have hnow : call.run a.value = (result, view guard held s.value a.value) :=
    hrun a.value fun _ _ => rfl
  refine ⟨⟨view guard held s.value a.value, Function.update a.todo t todo⟩, ?_,
    hR.holderOk.step heffect, all_step (Block.TwoPhase.hereditary guard) hR.twoPhase heffect, ?_,
    fun o ho => ?_⟩
  · rw [Serial.step, show a.todo t = call :: todo from htodo]
    simp only [hnow]
  · refine State.forall_setThread
      (P := fun u th => th.Answers guard s.value (view guard held s.value a.value)
        (Function.update a.todo t todo u)) ?_ fun u hu => ?_
    · rw [Function.update_self]
      exact rfl
    · rw [Function.update_of_ne hu]
      refine (hR.answers u).congr (fun _ _ => rfl) fun o ho => (view_of_not_mem fun hmem => ?_).symm
      refine hR.not_held ?_ hu ho
      rw [hth]
      exact hmem
  · show s.value o = view guard held s.value a.value o
    by_cases hmem : guard o ∈ held
    · rw [view_of_mem hmem]
    · rw [view_of_not_mem hmem]
      refine hR.settled o fun u hcurrent => ?_
      have hu' := ho u
      by_cases hut : u = t
      · subst hut
        rw [hth]
        exact hmem
      · rw [setThread_of_ne hut] at hu'
        exact hu' hcurrent

/-- What the serial system does in a step of a thread. -/
theorem Abstracts.step (hR : Abstracts guard s a) (hs : step s t = some (e, s')) :
    ∃ h a', Run Serial.step anyStep a h a' ∧ h.filterMap some = e.result.toList ∧
      Abstracts guard s' a' := by
  have heffect := effect_step hs
  cases hresult : e.result with
  | none => exact ⟨[], a, .nil, rfl, hR.silent heffect hresult⟩
  | some r =>
      cases heffect with
      | returned result held todo hth =>
          obtain ⟨a', hstep, hR'⟩ := hR.visible hth
          cases hresult
          exact ⟨[(t, result)], a', Run.nil.snoc trivial hstep, rfl, hR'⟩
      | _ => cases hresult

/-- **One call at a time.** -/
theorem run_serial (guard : ο → ℓ) {m : ο → ν} {calls : τ → List (Block ℓ ο ν ρ)}
    {h : List (Event τ ℓ ο ρ)} (htwo : ∀ t, ∀ call ∈ calls t, call.TwoPhase guard [])
    (hr : Run Synchronized.step anyStep (Synchronized.start m calls) h s) :
    ∃ a, Run Serial.step anyStep ⟨m, calls⟩ (h.filterMap Event.result) a ∧ Abstracts guard s a := by
  obtain ⟨h', a, hrun, hobs, hR⟩ := hr.refine Serial.step Event.result some (Abstracts guard)
    (Abstracts.start htwo) fun _ _ _ _ _ hR _ hs => hR.step hs
  rw [List.filterMap_some] at hobs
  exact ⟨a, hobs ▸ hrun, hR⟩

end Serially

end Synchronized
