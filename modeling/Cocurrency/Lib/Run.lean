/-
# Runs of a labelled transition system

A system is a step function `σ → α → Option (ε × σ)`: from a state, a choice of
the scheduler or the environment either is not enabled (`none`) or emits an event
and leads to a new state.  `Run step ok s₀ h s` says that some sequence of steps,
each of which satisfies `ok` in the state before it, leads from `s₀` to `s` and
emits the history `h`.

* `Run.invariant` : a property of history and state that holds at the start and
  is kept by every step holds in every reachable state;
* `Run.invariant_running` : the same for a system that can stop;
* `Run.strengthen` : a step condition that holds in every reachable state may be
  assumed of every step;
* `Run.exists_stuck` : if every step lowers a measure, a run can be taken to its end;
* `Run.split_append`, `Run.first_step` : a run is cut where its history is;
* `Run.split_first` : a run consists of steps that satisfy a condition, or leads through a state
  in which some step does not;
* `Run.simulate`, `Run.refine` : a forward simulation carries the observed history over to an
  abstract system, which answers with a step, or with several;
* `run_of_guarded` : a run of the steps that satisfy a condition;
* `run_of_replay`, `run_of_replay_guarded` : the executable counterpart, for runs on concrete
  inputs.
-/
import Mathlib.Logic.Basic
import Mathlib.Data.List.Basic

variable {σ α ε : Type*}

/-- `Run step ok s₀ h s` : from `s₀`, by steps that satisfy `ok`, to `s`, emitting `h`. -/
inductive Run (step : σ → α → Option (ε × σ)) (ok : σ → α → Prop) (s₀ : σ) : List ε → σ → Prop
  | nil : Run step ok s₀ [] s₀
  | snoc {h : List ε} {s s' : σ} {a : α} {e : ε} :
      Run step ok s₀ h s → ok s a → step s a = some (e, s') → Run step ok s₀ (h ++ [e]) s'

/-- The condition that every step satisfies. -/
def anyStep : σ → α → Prop := fun _ _ => True

namespace Run

variable {step : σ → α → Option (ε × σ)} {ok ok' : σ → α → Prop} {s₀ : σ}

/-- **The invariant rule.** -/
theorem invariant (P : List ε → σ → Prop) (init : P [] s₀)
    (keep : ∀ h s a e s', P h s → ok s a → step s a = some (e, s') → P (h ++ [e]) s')
    {h : List ε} {s : σ} (hr : Run step ok s₀ h s) : P h s := by
  induction hr with
  | nil => exact init
  | snoc _ hok hs ih => exact keep _ _ _ _ _ ih hok hs

/-- **The invariant rule for a system that can stop.**  If a stopped system stays so, then
what holds at the start and is kept by every step that leaves the system running holds
while it runs. -/
theorem invariant_running (running : σ → Bool) (P : σ → Prop) (E : ε → Prop) (init : P s₀)
    (stopped : ∀ s a e s', running s = false → step s a = some (e, s') →
      running s' = false ∧ E e)
    (keep : ∀ h s a e s', Run step ok s₀ h s → running s = true → P s → ok s a →
      step s a = some (e, s') → (running s' = true → P s') ∧ E e)
    {h : List ε} {s : σ} (hr : Run step ok s₀ h s) :
    (running s = true → P s) ∧ ∀ x ∈ h, E x := by
  induction hr with
  | nil => exact ⟨fun _ => init, List.forall_mem_nil _⟩
  | @snoc h s s' a e hr hok hs ih =>
      obtain ⟨hinv, hevents⟩ := ih
      have hstep : (running s' = true → P s') ∧ E e := by
        cases hrun : running s with
        | true => exact keep h s a e s' hr hrun (hinv hrun) hok hs
        | false =>
            obtain ⟨hstill, hevent⟩ := stopped s a e s' hrun hs
            exact ⟨fun hrun' => absurd (hstill.symm.trans hrun') Bool.false_ne_true, hevent⟩
      refine ⟨hstep.1, fun x hx => ?_⟩
      rcases List.mem_append.mp hx with hx | hx
      · exact hevents x hx
      · rw [List.mem_singleton.mp hx]
        exact hstep.2

/-- A step condition that holds whenever a step is taken from a reachable state may
be assumed of every step. -/
theorem strengthen
    (himp : ∀ h s a e s', Run step ok s₀ h s → ok s a → step s a = some (e, s') → ok' s a)
    {h : List ε} {s : σ} (hr : Run step ok s₀ h s) : Run step ok' s₀ h s := by
  induction hr with
  | nil => exact .nil
  | snoc hr hok hs ih => exact ih.snoc (himp _ _ _ _ _ hr hok hs) hs

/-- Runs compose, and so do their histories. -/
theorem trans {s₁ s₂ : σ} {h₁ h₂ : List ε} (hr₁ : Run step ok s₀ h₁ s₁)
    (hr₂ : Run step ok s₁ h₂ s₂) : Run step ok s₀ (h₁ ++ h₂) s₂ := by
  induction hr₂ with
  | nil => simpa using hr₁
  | snoc _ hok hs ih =>
      rw [← List.append_assoc]
      exact ih.snoc hok hs

/-- **The termination rule.**  If every step that satisfies `ok` keeps an invariant and lowers a
measure, then from any state with the invariant a run leads to one in which no such step is
possible. -/
theorem exists_stuck (I : σ → Prop) (μ : σ → ℕ)
    (lowers : ∀ s a e s', I s → ok s a → step s a = some (e, s') → I s' ∧ μ s' < μ s) {s : σ}
    (hI : I s) :
    ∃ h s', Run step ok s h s' ∧ ∀ a, ok s' a → step s' a = none := by
  induction hμ : μ s using Nat.strongRecOn generalizing s with
  | _ n ih =>
      by_cases hstuck : ∀ a, ok s a → step s a = none
      · exact ⟨[], s, .nil, hstuck⟩
      · obtain ⟨a, hok, hne⟩ : ∃ a, ok s a ∧ step s a ≠ none := by
          obtain ⟨a, ha⟩ := not_forall.mp hstuck
          exact ⟨a, Classical.not_imp.mp ha⟩
        obtain ⟨⟨e, s₁⟩, hs⟩ := Option.ne_none_iff_exists'.mp hne
        obtain ⟨hI₁, hlt⟩ := lowers s a e s₁ hI hok hs
        obtain ⟨h, s', hr, hstuck'⟩ := ih (μ s₁) (hμ ▸ hlt) hI₁ rfl
        have hfirst : Run step ok s [e] s₁ := Run.nil.snoc hok hs
        exact ⟨[e] ++ h, s', hfirst.trans hr, hstuck'⟩

/-- A step condition that every run of such steps implies of its next step may be assumed of
every step. -/
theorem strengthen_along
    (himp : ∀ h s a e s', Run step ok' s₀ h s → ok s a → step s a = some (e, s') → ok' s a)
    {h : List ε} {s : σ} (hr : Run step ok s₀ h s) : Run step ok' s₀ h s := by
  induction hr with
  | nil => exact .nil
  | snoc _ hok hs ih => exact ih.snoc (himp _ _ _ _ _ ih hok hs) hs

/-- A run with the history `h₁ ++ h₂` leads through a state in which the history is `h₁`. -/
theorem split_append {h₁ h₂ : List ε} {s : σ} (hr : Run step ok s₀ (h₁ ++ h₂) s) :
    ∃ s₁, Run step ok s₀ h₁ s₁ ∧ Run step ok s₁ h₂ s := by
  generalize hh : h₁ ++ h₂ = h at hr
  induction hr generalizing h₂ with
  | nil =>
      obtain ⟨rfl, rfl⟩ := List.append_eq_nil_iff.mp hh
      exact ⟨s₀, .nil, .nil⟩
  | @snoc h s s' a e hr hok hs ih =>
      rcases List.eq_nil_or_concat' h₂ with rfl | ⟨h₃, e', rfl⟩
      · rw [List.append_nil] at hh
        subst hh
        exact ⟨s', hr.snoc hok hs, .nil⟩
      · rw [← List.append_assoc] at hh
        obtain ⟨hinit, he⟩ := List.append_inj' hh rfl
        cases he
        obtain ⟨s₁, hr₁, hr₂⟩ := ih hinit
        exact ⟨s₁, hr₁, hr₂.snoc hok hs⟩

/-- The first step of a run. -/
theorem first_step {h : List ε} {e : ε} {s : σ} (hr : Run step ok s₀ (e :: h) s) :
    ∃ a s₁, step s₀ a = some (e, s₁) ∧ Run step ok s₁ h s := by
  have hone : Run step ok s₀ ([e] ++ h) s := hr
  obtain ⟨s₁, hfirst, hrest⟩ := hone.split_append
  generalize hh : [e] = h' at hfirst
  cases hfirst with
  | nil => cases hh
  | @snoc h' s' _ a e' hr' _ hs =>
      have hsplit : [] ++ [e] = h' ++ [e'] := hh
      obtain ⟨rfl, he⟩ := List.append_inj' hsplit rfl
      cases he
      generalize hnil : ([] : List ε) = h' at hr'
      cases hr' with
      | nil => exact ⟨a, s₁, hs, hrest⟩
      | snoc _ _ _ => simp at hnil

/-- A run either satisfies a condition in all its steps, or leads, by such steps, to a state with a
step that does not. -/
theorem split_first (ok : σ → α → Prop) {h : List ε} {s : σ} (hr : Run step anyStep s₀ h s) :
    Run step ok s₀ h s ∨
      ∃ h₁ s₁ h₂ a, h = h₁ ++ h₂ ∧ Run step ok s₀ h₁ s₁ ∧ ¬ ok s₁ a ∧ Run step anyStep s₁ h₂ s := by
  induction hr with
  | nil => exact Or.inl .nil
  | @snoc h s s' a e _ _ hs ih =>
      rcases ih with hr | ⟨h₁, s₁, h₂, b, rfl, hr₁, hno, hr₂⟩
      · by_cases hok : ok s a
        · exact Or.inl (hr.snoc hok hs)
        · exact Or.inr ⟨h, s, [e], a, rfl, hr, hok, Run.nil.snoc trivial hs⟩
      · exact Or.inr ⟨h₁, s₁, h₂ ++ [e], b, List.append_assoc _ _ _, hr₁, hno,
          hr₂.snoc trivial hs⟩

end Run

/-! ## Simulation -/

section Simulation

variable {τ β ο : Type*} {step : σ → α → Option (ε × σ)} {ok : σ → α → Prop} {s₀ : σ}

/-- **The simulation rule.**  `obs` picks the events that the abstract system `astep` sees.
If a relation between history, state and abstract state holds at the start, is kept by
steps the abstract system does not see, and lets it answer the others, then the
observed history is a history of the abstract system. -/
theorem Run.simulate {astep : τ → β → Option (ο × τ)} (obs : ε → Option ο)
    (R : List ε → σ → τ → Prop) (t₀ : τ) (init : R [] s₀ t₀)
    (silent : ∀ h s a e s' t, Run step ok s₀ h s → R h s t → ok s a →
      step s a = some (e, s') → obs e = none → R (h ++ [e]) s' t)
    (visible : ∀ h s a e s' t o, Run step ok s₀ h s → R h s t → ok s a →
      step s a = some (e, s') → obs e = some o →
        ∃ b t', astep t b = some (o, t') ∧ R (h ++ [e]) s' t')
    {h : List ε} {s : σ} (hr : Run step ok s₀ h s) :
    ∃ t, Run astep anyStep t₀ (h.filterMap obs) t ∧ R h s t := by
  induction hr with
  | nil => exact ⟨t₀, .nil, init⟩
  | @snoc h s s' a e hr hok hs ih =>
      obtain ⟨t, hrun, hrel⟩ := ih
      rw [List.filterMap_append]
      cases ho : obs e with
      | none =>
          refine ⟨t, ?_, silent h s a e s' t hr hrel hok hs ho⟩
          simpa [ho] using hrun
      | some o =>
          obtain ⟨b, t', hb, hrel'⟩ := visible h s a e s' t o hr hrel hok hs ho
          refine ⟨t', ?_, hrel'⟩
          simpa [ho] using hrun.snoc trivial hb

/-- **The refinement rule.**  A step may be answered by a run of the abstract system. -/
theorem Run.refine {δ : Type*} (astep : τ → β → Option (δ × τ)) (obs : ε → Option ο)
    (aobs : δ → Option ο) (R : σ → τ → Prop) {t₀ : τ} (init : R s₀ t₀)
    (answers : ∀ s a e s' t, R s t → ok s a → step s a = some (e, s') →
      ∃ h' t', Run astep anyStep t h' t' ∧ h'.filterMap aobs = (obs e).toList ∧ R s' t')
    {h : List ε} {s : σ} (hr : Run step ok s₀ h s) :
    ∃ h' t, Run astep anyStep t₀ h' t ∧ h'.filterMap aobs = h.filterMap obs ∧ R s t := by
  induction hr with
  | nil => exact ⟨[], t₀, .nil, rfl, init⟩
  | @snoc h s s' a e _ hok hs ih =>
      obtain ⟨h₁, t, hrun, hobs, hR⟩ := ih
      obtain ⟨h₂, t', hrun', hobs', hR'⟩ := answers s a e s' t hR hok hs
      refine ⟨h₁ ++ h₂, t', hrun.trans hrun', ?_, hR'⟩
      rw [List.filterMap_append, List.filterMap_append, hobs, hobs']
      cases ho : obs e <;> simp [ho]

end Simulation

/-! ## Replaying a list of choices -/

/-- Follow a list of choices; `none` as soon as one is not enabled. -/
def replay (step : σ → α → Option (ε × σ)) : σ → List α → Option (List ε × σ)
  | s, [] => some ([], s)
  | s, a :: as =>
      match step s a with
      | none => none
      | some (e, s') =>
          match replay step s' as with
          | none => none
          | some (h, s'') => some (e :: h, s'')

/-- A replayed list of choices is a run of steps that satisfy what holds of each choice. -/
theorem run_of_replay_of (step : σ → α → Option (ε × σ)) {ok : σ → α → Prop} {s s' : σ}
    (as : List α) {h : List ε} (hok : ∀ a ∈ as, ∀ s, ok s a)
    (hx : replay step s as = some (h, s')) : Run step ok s h s' := by
  induction as generalizing s h with
  | nil =>
      rw [replay, Option.some.injEq, Prod.mk.injEq] at hx
      obtain ⟨rfl, rfl⟩ := hx
      exact .nil
  | cons a as ih =>
      rw [replay] at hx
      split at hx
      · cases hx
      · next e s₁ hs =>
        split at hx
        · cases hx
        · next h₁ s₂ hrest =>
          rw [Option.some.injEq, Prod.mk.injEq] at hx
          obtain ⟨rfl, rfl⟩ := hx
          have hfirst : Run step ok s [e] s₁ := Run.nil.snoc (hok a List.mem_cons_self s) hs
          have hok' : ∀ a' ∈ as, ∀ s, ok s a' := fun a' ha => hok a' (List.mem_cons_of_mem _ ha)
          simpa using hfirst.trans (ih hok' hrest)

/-- A replayed list of choices is a run. -/
theorem run_of_replay (step : σ → α → Option (ε × σ)) {s s' : σ} (as : List α) {h : List ε}
    (hx : replay step s as = some (h, s')) : Run step anyStep s h s' :=
  run_of_replay_of step as (fun _ _ _ => trivial) hx

/-- The steps that satisfy a condition. -/
def guarded (step : σ → α → Option (ε × σ)) (ok : σ → α → Prop) [∀ s a, Decidable (ok s a)]
    (s : σ) (a : α) : Option (ε × σ) :=
  if ok s a then step s a else none

/-- A run of the steps that satisfy a condition is a run in which each step does. -/
theorem run_of_guarded {step : σ → α → Option (ε × σ)} {ok : σ → α → Prop}
    [∀ s a, Decidable (ok s a)] {s₀ s : σ} {h : List ε}
    (hr : Run (guarded step ok) anyStep s₀ h s) : Run step ok s₀ h s := by
  induction hr with
  | nil => exact .nil
  | snoc _ _ hs ih =>
      rw [guarded] at hs
      split at hs
      · next hok => exact ih.snoc hok hs
      · cases hs

/-- A list of choices, replayed with a condition on each, is a run of steps that satisfy it. -/
theorem run_of_replay_guarded (step : σ → α → Option (ε × σ)) (ok : σ → α → Prop)
    [∀ s a, Decidable (ok s a)] {s s' : σ} (as : List α) {h : List ε}
    (hx : replay (guarded step ok) s as = some (h, s')) : Run step ok s h s' :=
  run_of_guarded (run_of_replay (guarded step ok) as hx)
