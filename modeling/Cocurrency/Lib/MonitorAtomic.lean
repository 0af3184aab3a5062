/-
# Sections of a monitor at once

What a monitor does step by step is what its atomic system does section by section: a section takes
effect with the end of its body, while the lock is held.

* `State.Abstracts` : the atomic system is where the bodies that are over have led;
* `run_atomic` : what a monitor does is what the atomic system can do;
* `State.turn` : a thread does a whole section while the others stand still.
-/
import Cocurrency.Lib.Monitor

namespace Monitor

section Steps

variable {τ κ σ ρ : Type*} [DecidableEq τ] (code : κ → Instr τ κ σ ρ)

/-! ## Sections are atomic -/

/-- Where the atomic system has the thread: a section is over with its body. -/
def Thread.resumes (code : κ → Instr τ κ σ ρ) (th : Thread κ σ ρ) : κ :=
  match code th.control, th.phase with
  | .locked _ next, .leaving result _ => next result
  | .locked _ next, .left result => next result
  | _, _ => th.control

/-- Before its body is over. -/
def Phase.Before : Phase σ ρ → Prop
  | .leaving _ _ | .left _ => False
  | _ => True

omit [DecidableEq τ] in
theorem resumes_of_before {code : κ → Instr τ κ σ ρ} (th : Thread κ σ ρ)
    (h : th.phase.Before) : th.resumes code = th.control := by
  rw [Thread.resumes]
  split
  · next hphase =>
    rw [hphase] at h
    exact h.elim
  · next hphase =>
    rw [hphase] at h
    exact h.elim
  · rfl

omit [DecidableEq τ] in
theorem resumes_of_not_locked {code : κ → Instr τ κ σ ρ} {th : Thread κ σ ρ}
    (h : ∀ call next, code th.control ≠ .locked call next) : th.resumes code = th.control := by
  rw [Thread.resumes]
  split
  · next hlocked _ => exact absurd hlocked (h _ _)
  · next hlocked _ => exact absurd hlocked (h _ _)
  · rfl

omit [DecidableEq τ] in
theorem eq_resumes {code : κ → Instr τ κ σ ρ} {k : κ} {phase : Phase σ ρ} (h : phase.Before) :
    k = (⟨k, phase⟩ : Thread κ σ ρ).resumes code :=
  (resumes_of_before ⟨k, phase⟩ h).symm

omit [DecidableEq τ] in
theorem Thread.Like.resumes {code : κ → Instr τ κ σ ρ} {th th' : Thread κ σ ρ}
    (h : th'.Like th) : th'.resumes code = th.resumes code := by
  rcases h with rfl | rfl
  · rfl
  · rw [Thread.notify]
    split
    · next notified hphase =>
      have hbefore : th.phase.Before := by
        rw [hphase]
        trivial
      rw [resumes_of_before th hbefore]
      exact resumes_of_before ⟨th.control, .asleep true⟩ trivial
    · rfl

namespace State

/-- `a` is what the atomic system has made of the sections whose bodies are over. -/
structure Abstracts (s : State τ κ σ ρ) (a : Atomic τ κ σ) : Prop where
  lockOk : LockOk s
  control : ∀ u, a.control u = (s.thread u).resumes code
  outside : ∀ u, (∀ call next, code (s.thread u).control ≠ .locked call next) →
    (s.thread u).phase = .outside
  shared : (∀ u rest, (s.thread u).phase ≠ .running rest) → a.shared = s.shared
  /-- What is left of a body leads from here to where the whole body leads from `a`. -/
  running : ∀ u rest, (s.thread u).phase = .running rest → ∃ call next,
    code (s.thread u).control = .locked call next ∧ call.guard a.shared = true ∧
      rest.run s.shared = call.body.run a.shared

namespace Abstracts

variable {code : κ → Instr τ κ σ ρ} {s s' : State τ κ σ ρ} {t : τ} {a a' : Atomic τ κ σ}

omit [DecidableEq τ] in
theorem start (code : κ → Instr τ κ σ ρ) (v : σ) (control : τ → κ) :
    Abstracts code (.start v control) (.start v control) where
  lockOk u := iff_of_false (fun h => by cases h) id
  control u := by
    exact eq_resumes (by trivial)
  outside u _ := rfl
  shared _ := rfl
  running u rest h := by cases h

omit [DecidableEq τ] in
/-- Nobody else runs. -/
theorem not_running (h : Abstracts code s a) (ht : (s.thread t).phase.Inside)
    (hnot : ∀ rest, (s.thread t).phase ≠ .running rest) (u : τ) (rest : Body σ ρ) :
    (s.thread u).phase ≠ .running rest := by
  intro hu
  have heq : u = t := h.lockOk.unique ht (by rw [hu]; trivial)
  rw [heq] at hu
  exact hnot rest hu

omit [DecidableEq τ] in
/-- While the lock is free nobody runs. -/
theorem shared_of_free (h : Abstracts code s a) (hfree : s.holder = none) :
    a.shared = s.shared := by
  apply h.shared
  intro u rest hu
  have hholds := (h.lockOk u).mpr (by rw [hu]; trivial)
  rw [hfree] at hholds
  cases hholds

omit [DecidableEq τ] in
/-- A step that does not touch the shared value. -/
theorem moves (h : Abstracts code s a) (hl' : LockOk s') (hothers : Others s s' t)
    {th : Thread κ σ ρ} (hthread : s'.thread t = th)
    (hcode : (∃ call next, code th.control = .locked call next) ∨ th.phase = .outside)
    (hbefore : ∀ rest, (s.thread t).phase ≠ .running rest)
    (hafter : ∀ rest, th.phase ≠ .running rest)
    (hshared : s'.shared = s.shared) (hcontrol : a'.control t = th.resumes code)
    (hshared' : a'.shared = a.shared) (hcontrol' : ∀ u, u ≠ t → a'.control u = a.control u) :
    Abstracts code s' a' where
  lockOk := hl'
  control u := by
    by_cases hu : u = t
    · rw [hu, hthread]
      exact hcontrol
    · rw [hcontrol' u hu, (hothers u hu).resumes]
      exact h.control u
  outside u := by
    by_cases hu : u = t
    · rw [hu, hthread]
      intro hnot
      rcases hcode with ⟨call, next, hcode⟩ | hphase
      · exact absurd hcode (hnot call next)
      · exact hphase
    · rw [(hothers u hu).control, (hothers u hu).phase_eq_iff (by simp)]
      exact h.outside u
  shared hnot := by
    rw [hshared, hshared']
    apply h.shared
    intro u rest hu
    by_cases hut : u = t
    · rw [hut] at hu
      exact hbefore rest hu
    · exact hnot u rest (((hothers u hut).phase_eq_iff (by simp)).mpr hu)
  running u rest hu := by
    by_cases hut : u = t
    · rw [hut, hthread] at hu
      exact absurd hu (hafter rest)
    · rw [(hothers u hut).phase_eq_iff (by simp)] at hu
      rw [(hothers u hut).control, hshared, hshared']
      exact h.running u rest hu

omit [DecidableEq τ] in
/-- The same, if the atomic system does nothing. -/
theorem frame (h : Abstracts code s a) (hl' : LockOk s') (hothers : Others s s' t)
    {th : Thread κ σ ρ} (hthread : s'.thread t = th)
    (hcode : (∃ call next, code th.control = .locked call next) ∨ th.phase = .outside)
    (hbefore : ∀ rest, (s.thread t).phase ≠ .running rest)
    (hafter : ∀ rest, th.phase ≠ .running rest)
    (hshared : s'.shared = s.shared) (hcontrol : a.control t = th.resumes code) :
    Abstracts code s' a :=
  h.moves hl' hothers hthread hcode hbefore hafter hshared hcontrol rfl fun _ _ => rfl

omit [DecidableEq τ] in
/-- A step of the thread that runs, or begins to. -/
theorem runs (h : Abstracts code s a) (hl' : LockOk s') (hothers : Others s s' t)
    {th : Thread κ σ ρ} (hthread : s'.thread t = th) {call : Section σ ρ} {next : ρ → κ}
    {rest : Body σ ρ} (hcode : code th.control = .locked call next)
    (hafter : th.phase = .running rest) (hguard : call.guard a.shared = true)
    (hrun : rest.run s'.shared = call.body.run a.shared) (hcontrol : a.control t = th.control) :
    Abstracts code s' a where
  lockOk := hl'
  control u := by
    by_cases hu : u = t
    · rw [hu, hthread, resumes_of_before th (by rw [hafter]; trivial), hcontrol]
    · rw [(hothers u hu).resumes]
      exact h.control u
  outside u := by
    by_cases hu : u = t
    · rw [hu, hthread]
      exact fun hnot => absurd hcode (hnot call next)
    · rw [(hothers u hu).control, (hothers u hu).phase_eq_iff (by simp)]
      exact h.outside u
  shared hnot := absurd (hthread ▸ hafter) (hnot t rest)
  running u rest' hu := by
    have hut : u = t := hl'.unique (by rw [hthread, hafter]; trivial) (by rw [hu]; trivial)
    rw [hut, hthread] at hu ⊢
    rw [hafter, Phase.running.injEq] at hu
    rw [← hu]
    exact ⟨call, next, hcode, hguard, hrun⟩

omit [DecidableEq τ] in
theorem resumes_leaving (th : Thread κ σ ρ) {call : Section σ ρ} {next : ρ → κ}
    (hcode : code th.control = .locked call next) {result : ρ} {pending : Bool}
    (hphase : th.phase = .leaving result pending) : th.resumes code = next result := by
  rw [Thread.resumes, hcode, hphase]

omit [DecidableEq τ] in
theorem resumes_left (th : Thread κ σ ρ) {call : Section σ ρ} {next : ρ → κ}
    (hcode : code th.control = .locked call next) {result : ρ}
    (hphase : th.phase = .left result) : th.resumes code = next result := by
  rw [Thread.resumes, hcode, hphase]

/-- A step that ends no section. -/
theorem silent (h : Abstracts code s a) (heffect : Effect code s t e s') (hnone : deed e = none) :
    Abstracts code s' a := by
  have hl' := h.lockOk.effect (h.outside t) heffect
  have hothers := heffect.others
  have hcontrol := h.control t
  cases heffect with
  | acquired call next hcode hfree hphase =>
      have hbefore : (s.thread t).phase.Before := by
        rcases hphase with hphase | hphase <;> rw [hphase] <;> trivial
      have hnot : ∀ rest, (s.thread t).phase ≠ .running rest := by
        rcases hphase with hphase | hphase <;> simp [hphase]
      rw [resumes_of_before _ hbefore] at hcontrol
      exact h.frame hl' hothers (setThread_self _) (Or.inl ⟨call, next, hcode⟩) hnot (by simp) rfl
        (hcontrol.trans (eq_resumes (by trivial)))
  | passed call next hcode hphase hguard =>
      have hshared : a.shared = s.shared :=
        h.shared (h.not_running (by rw [hphase]; trivial) (by simp [hphase]))
      rw [resumes_of_before _ (by rw [hphase]; trivial)] at hcontrol
      refine h.runs hl' hothers (setThread_self _) hcode rfl ?_ ?_ hcontrol
      · rw [hshared]
        exact hguard
      · rw [hshared]
        rfl
  | waits call next hcode hphase hguard =>
      rw [resumes_of_before _ (by rw [hphase]; trivial)] at hcontrol
      exact h.frame hl' hothers (setThread_self _) (Or.inl ⟨call, next, hcode⟩) (by simp [hphase])
        (by simp) rfl (hcontrol.trans (eq_resumes (by trivial)))
  | accessed call next change more hcode hphase =>
      obtain ⟨call', next', hcode', hguard, hrun⟩ := h.running t _ hphase
      rw [resumes_of_before _ (by rw [hphase]; trivial)] at hcontrol
      exact h.runs hl' hothers (setThread_self _) hcode' rfl hguard hrun hcontrol
  | returned call next result hcode hphase => cases hnone
  | notifiesInside call next result hcode hphase =>
      have hcontrol' : (s.notifyAll.thread t).control = (s.thread t).control :=
        notify_control _
      rw [resumes_leaving _ hcode hphase] at hcontrol
      have hcode' : code (s.notifyAll.thread t).control = .locked call next := by
        rw [hcontrol']
        exact hcode
      exact h.frame hl' hothers (setThread_self _) (Or.inl ⟨call, next, hcode'⟩) (by simp [hphase])
        (by simp) rfl (hcontrol.trans (resumes_leaving ⟨_, .leaving result false⟩ hcode' rfl).symm)
  | releasedEarly call next result hcode hphase =>
      rw [resumes_leaving _ hcode hphase] at hcontrol
      exact h.frame hl' hothers (setThread_self _) (Or.inl ⟨call, next, hcode⟩) (by simp [hphase])
        (by simp) rfl (hcontrol.trans (resumes_left ⟨_, .left result⟩ hcode rfl).symm)
  | released call next result hcode hphase =>
      rw [resumes_leaving _ hcode hphase] at hcontrol
      exact h.frame hl' hothers (setThread_self _) (Or.inr rfl) (by simp [hphase]) (by simp) rfl
        (hcontrol.trans (eq_resumes (by trivial)))
  | notifiesOutside call next result hcode hphase =>
      rw [resumes_left _ hcode hphase] at hcontrol
      exact h.frame hl' hothers (setThread_self _) (Or.inr rfl) (by simp [hphase]) (by simp) rfl
        (hcontrol.trans (eq_resumes (by trivial)))
  | joined others next hcode hall => cases hnone

omit [DecidableEq τ] in
/-- A thread has finished where the atomic system has it finished. -/
theorem isFinished_of (h : Abstracts code s a) (u : τ) :
    (code (s.thread u).control).isFinished = true →
      (code (a.control u)).isFinished = true := by
  intro hfin
  have hnot : ∀ call next, code (s.thread u).control ≠ .locked call next := by
    intro call next hcode
    rw [hcode] at hfin
    cases hfin
  rw [h.control u, resumes_of_not_locked hnot]
  exact hfin

/-- A step that ends a section, or a `join`. -/
theorem visible (h : Abstracts code s a) (heffect : Effect code s t e s') {d : Deed τ ρ}
    (hsome : deed e = some d) :
    ∃ a', Atomic.step code a t = some (d, a') ∧ Abstracts code s' a' := by
  have hl' := h.lockOk.effect (h.outside t) heffect
  have hothers := heffect.others
  have hcontrol := h.control t
  cases heffect with
  | returned call next result hcode hphase =>
      cases hsome
      obtain ⟨call', next', hcode', hguard, hrun⟩ := h.running t _ hphase
      rw [hcode, Instr.locked.injEq] at hcode'
      obtain ⟨rfl, rfl⟩ := hcode'
      rw [resumes_of_before _ (by rw [hphase]; trivial)] at hcontrol
      have hnobody : ∀ u rest, (s.thread u).phase = .running rest → u = t := fun u rest hu =>
        h.lockOk.unique (by rw [hphase]; trivial) (by rw [hu]; trivial)
      refine ⟨⟨s.shared, Function.update a.control t (next result)⟩, ?_, ?_⟩
      · rw [Atomic.step, hcontrol, hcode]
        simp only [hguard, if_true, ← hrun]
        rfl
      · refine ⟨hl', fun u => ?_, fun u => ?_, fun _ => rfl, fun u rest hu => ?_⟩
        · by_cases hu : u = t
          · rw [hu, inPhase, setThread_self, resumes_leaving ⟨_, .leaving result _⟩ hcode rfl]
            exact Function.update_self _ _ _
          · rw [(hothers u hu).resumes, ← h.control u]
            exact Function.update_of_ne hu _ _
        · by_cases hu : u = t
          · rw [hu, inPhase, setThread_self]
            exact fun hnot => absurd hcode (hnot call next)
          · rw [(hothers u hu).control, (hothers u hu).phase_eq_iff (by simp)]
            exact h.outside u
        · by_cases hut : u = t
          · rw [hut, inPhase, setThread_self] at hu
            cases hu
          · rw [(hothers u hut).phase_eq_iff (by simp)] at hu
            exact absurd (hnobody u rest hu) hut
  | joined others next hcode hall =>
      cases hsome
      have hnot : ∀ call next, code (s.thread t).control ≠ .locked call next := by
        intro call next' hlocked
        rw [hcode] at hlocked
        cases hlocked
      have hphase := h.outside t hnot
      rw [resumes_of_not_locked hnot] at hcontrol
      have hall' : (others.all fun u => (code (a.control u)).isFinished) = true := by
        rw [List.all_eq_true] at hall ⊢
        exact fun u hu => h.isFinished_of u (hall u hu)
      refine ⟨{ a with control := Function.update a.control t next }, ?_, ?_⟩
      · rw [Atomic.step, hcontrol, hcode]
        simp only [hall', if_true]
      · refine h.moves hl' hothers (setThread_self _) (Or.inr rfl) (by simp [hphase]) (by simp) rfl
          ?_ rfl fun u hu => Function.update_of_ne hu _ _
        exact (Function.update_self _ _ _).trans (eq_resumes (by trivial))
  | acquired call next hcode hfree hphase => cases hsome
  | passed call next hcode hphase hguard => cases hsome
  | waits call next hcode hphase hguard => cases hsome
  | accessed call next change more hcode hphase => cases hsome
  | notifiesInside call next result hcode hphase => cases hsome
  | releasedEarly call next result hcode hphase => cases hsome
  | released call next result hcode hphase => cases hsome
  | notifiesOutside call next result hcode hphase => cases hsome

end Abstracts

end State

/-- **Sections are atomic.** -/
theorem run_atomic (code : κ → Instr τ κ σ ρ) (v : σ) (control : τ → κ) {h : List (Event τ ρ)}
    {s : State τ κ σ ρ} (hr : Run (State.step code) anyStep (.start v control) h s) :
    ∃ a, Run (Atomic.step code) anyStep (.start v control) (h.filterMap deed) a ∧
      s.Abstracts code a := by
  apply hr.simulate deed (fun _ s a => s.Abstracts code a) _ (State.Abstracts.start code v control)
  · intro h s t e s' a _ hR _ hstep hnone
    exact hR.silent (State.effect_step hstep) hnone
  · intro h s t e s' a d _ hR _ hstep hsome
    obtain ⟨a', hstep', hR'⟩ := hR.visible (State.effect_step hstep) hsome
    exact ⟨t, a', hstep', hR'⟩

/-! ## Turns -/

namespace State

variable {code : κ → Instr τ κ σ ρ} {t : τ} {call : Section σ ρ} {next : ρ → κ}

/-- A thread that runs can run to the end of its body. -/
theorem run_body {k : κ} (hcode : code k = .locked call next) (rest : Body σ ρ) (v : σ)
    (holder : Option τ) (thread : τ → Thread κ σ ρ) :
    ∃ h, h.filterMap deed = [] ∧
      Run (step code) anyStep ⟨v, holder, Function.update thread t ⟨k, .running rest⟩⟩ h
        ⟨(rest.run v).2, holder,
          Function.update thread t ⟨k, .running (.done (rest.run v).1)⟩⟩ := by
  induction rest generalizing v with
  | done result => exact ⟨[], rfl, .nil⟩
  | access change more ih =>
      obtain ⟨h, hdeeds, hr⟩ := ih v (change v)
      have hfirst : Run (step code) anyStep
          ⟨v, holder, Function.update thread t ⟨k, .running (.access change more)⟩⟩
          [.accessed t] ⟨change v, holder, Function.update thread t ⟨k, .running (more v)⟩⟩ := by
        refine Run.nil.snoc (a := t) trivial ?_
        simp [step, hcode, stepLocked, inPhase, setThread]
      exact ⟨[.accessed t] ++ h, hdeeds, hfirst.trans hr⟩

/-- While the lock is free, a thread outside of a section whose guard holds can do it. -/
theorem turn {k : κ} (hcode : code k = .locked call next) (v : σ) (thread : τ → Thread κ σ ρ)
    (hthread : thread t = ⟨k, .outside⟩) (hguard : call.guard v = true) :
    ∃ h thread', h.filterMap deed = [.returned t (call.body.run v).1] ∧
      Run (step code) anyStep ⟨v, none, thread⟩ h ⟨(call.body.run v).2, none, thread'⟩ ∧
      thread' t = ⟨next (call.body.run v).1, .outside⟩ ∧
      ∀ u, u ≠ t → thread' u =
        if call.notifies (call.body.run v).1 then (thread u).notify else thread u := by
  have hacquired : Run (step code) anyStep ⟨v, none, thread⟩ [.acquired t, .passed t]
      ⟨v, some t, Function.update thread t ⟨k, .running call.body⟩⟩ := by
    apply run_of_replay (step code) [t, t]
    simp [replay, step, hthread, hcode, stepLocked, acquire, inPhase, setThread, hguard]
  obtain ⟨h, hdeeds, hr⟩ := run_body (t := t) hcode call.body v (some t) thread
  generalize call.body.run v = result at hr ⊢
  obtain ⟨r, v'⟩ := result
  have hreturned : Run (step code) anyStep
      ⟨v', some t, Function.update thread t ⟨k, .running (.done r)⟩⟩ [.returned t r]
      ⟨v', some t, Function.update thread t ⟨k, .leaving r (call.notifies r)⟩⟩ := by
    apply run_of_replay (step code) [t]
    simp [replay, step, hcode, stepLocked, inPhase, setThread]
  have hbody := (hacquired.trans hr).trans hreturned
  have hevents : ∀ after : List (Event τ ρ), after.filterMap deed = [] →
      ([Event.acquired t, .passed t] ++ h ++ [Event.returned t r] ++ after).filterMap deed =
        [.returned t r] := by
    intro after hafter
    rw [List.filterMap_append, List.filterMap_append, List.filterMap_append, hdeeds, hafter]
    rfl
  cases hnotifies : call.notifies r with
  | false =>
      have hreleased : Run (step code) anyStep
          ⟨v', some t, Function.update thread t ⟨k, .leaving r false⟩⟩ [.released t]
          ⟨v', none, Function.update thread t ⟨next r, .outside⟩⟩ := by
        apply run_of_replay (step code) [t]
        simp [replay, step, hcode, stepLocked, setThread]
      rw [hnotifies] at hbody
      refine ⟨_, _, hevents _ rfl, hbody.trans hreleased, Function.update_self _ _ _,
        fun u hu => ?_⟩
      exact Function.update_of_ne hu _ _
  | true =>
      rw [hnotifies] at hbody
      cases hinside : call.notifiesInside with
      | true =>
          have hleaves : Run (step code) anyStep
              ⟨v', some t, Function.update thread t ⟨k, .leaving r true⟩⟩
              [.notifiesAll t, .released t] ⟨v', none, Function.update
                (fun u => (Function.update thread t ⟨k, .leaving r true⟩ u).notify) t
                ⟨next r, .outside⟩⟩ := by
            apply run_of_replay (step code) [t, t]
            simp [replay, step, hcode, stepLocked, inPhase, setThread, hinside, notifyAll,
              notify_control]
          refine ⟨_, _, hevents _ rfl, hbody.trans hleaves, Function.update_self _ _ _,
            fun u hu => ?_⟩
          rw [Function.update_of_ne hu, Function.update_of_ne hu]
          rfl
      | false =>
          have hleaves : Run (step code) anyStep
              ⟨v', some t, Function.update thread t ⟨k, .leaving r true⟩⟩
              [.released t, .notifiesAll t] ⟨v', none, Function.update
                (fun u => (Function.update thread t ⟨k, .left r⟩ u).notify) t
                ⟨next r, .outside⟩⟩ := by
            apply run_of_replay (step code) [t, t]
            simp [replay, step, hcode, stepLocked, inPhase, setThread, hinside, notifyAll]
          refine ⟨_, _, hevents _ rfl, hbody.trans hleaves, Function.update_self _ _ _,
            fun u hu => ?_⟩
          rw [Function.update_of_ne hu, Function.update_of_ne hu]
          rfl

end State

end Steps

end Monitor
