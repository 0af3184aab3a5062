/-
# Nobody sleeps for nothing

Whether a thread that sleeps in a monitor has reason to.

* `Notifying` : no section makes a guard true and does not notify;
* `run_awake` : then whoever sleeps unnotified waits for what does not hold, or a `notify_all` is
  still to come;
* `State.stuck_atomic` : such a monitor comes to a halt only where the atomic system does.
-/
import Cocurrency.Lib.MonitorAtomic

namespace Monitor

section Steps

variable {τ κ σ ρ : Type*} [DecidableEq τ] (code : κ → Instr τ κ σ ρ)

/-! ## Nobody sleeps for nothing -/

/-- Threads that begin in `K` stay there. -/
structure Closed (code : κ → Instr τ κ σ ρ) (K : κ → Prop) : Prop where
  locked : ∀ k call next result, K k → code k = .locked call next → K (next result)
  join : ∀ k others next, K k → code k = .join others next → K next

/-- In `K` a section that makes a guard true calls `notify_all`. -/
def Notifying (code : κ → Instr τ κ σ ρ) (K : κ → Prop) : Prop :=
  ∀ k call next k' call' next', K k → K k' →
    code k = .locked call next → code k' = .locked call' next' →
      ∀ v, call.guard v = true → call.notifies (call.body.run v).1 = false →
        call'.guard (call.body.run v).2 = true → call'.guard v = true

omit [DecidableEq τ] in
theorem Thread.Like.pending_iff {th th' : Thread κ σ ρ} (h : th'.Like th) :
    th'.phase.Pending ↔ th.phase.Pending := by
  rcases h with rfl | rfl
  · exact Iff.rfl
  · rw [Thread.notify]
    split
    · next hphase =>
      rw [hphase]
      exact Iff.rfl
    · exact Iff.rfl

omit [DecidableEq τ] in
theorem Thread.Like.asleep {th th' : Thread κ σ ρ} (h : th'.Like th)
    (hasleep : th'.phase = .asleep false) : th.phase = .asleep false := by
  rcases h with rfl | rfl
  · exact hasleep
  · exact absurd hasleep (notify_phase_ne th)

namespace State

/-- Where a thread is after a step of `t`. -/
theorem Effect.control_mem {code : κ → Instr τ κ σ ρ} {K : κ → Prop} (hclosed : Closed code K)
    {s s' : State τ κ σ ρ} {t : τ} {e : Event τ ρ} (heffect : Effect code s t e s')
    (h : ∀ u, K (s.thread u).control) (u : τ) : K (s'.thread u).control := by
  by_cases hu : u = t
  · subst hu
    have ht := h u
    cases heffect with
    | notifiesInside call next result hcode hphase =>
        rw [inPhase, setThread_self]
        show K (s.thread u).notify.control
        rw [notify_control]
        exact ht
    | released call next result hcode hphase =>
        rw [setThread_self]
        exact hclosed.locked _ call next result ht hcode
    | notifiesOutside call next result hcode hphase =>
        rw [setThread_self]
        exact hclosed.locked _ call next result ht hcode
    | joined others next hcode hall =>
        rw [setThread_self]
        exact hclosed.join _ others next ht hcode
    | _ =>
        rw [inPhase, setThread_self]
        exact ht
  · rw [(heffect.others u hu).control]
    exact h u

/-- Somebody is still to call `notify_all`. -/
def Pending (s : State τ κ σ ρ) : Prop := ∃ u, (s.thread u).phase.Pending

/-- Whoever sleeps unnotified waits for what does not hold, or is to be notified. -/
def Awake (code : κ → Instr τ κ σ ρ) (s : State τ κ σ ρ) (v : σ) : Prop :=
  ∀ u call next, code (s.thread u).control = .locked call next →
    (s.thread u).phase = .asleep false → call.guard v = false ∨ s.Pending

variable {code : κ → Instr τ κ σ ρ} {s s' : State τ κ σ ρ} {t : τ} {a a' : Atomic τ κ σ}
  {e : Event τ ρ}

omit [DecidableEq τ] in
theorem Pending.stays (hp : s.Pending) (hothers : Others s s' t)
    (hnot : ¬ (s.thread t).phase.Pending) : s'.Pending := by
  obtain ⟨w, hw⟩ := hp
  have hne : w ≠ t := by
    rintro rfl
    exact hnot hw
  exact ⟨w, (hothers w hne).pending_iff.mpr hw⟩

omit [DecidableEq τ] in
/-- A step that neither notifies nor changes what is waited for. -/
theorem Awake.frame {v : σ} (h : Awake code s v) (hothers : Others s s' t)
    (hnot : ¬ (s.thread t).phase.Pending) (hawake : (s'.thread t).phase ≠ .asleep false) :
    Awake code s' v := by
  intro u call next hcode hasleep
  have hne : u ≠ t := by
    rintro rfl
    exact hawake hasleep
  rw [(hothers u hne).control] at hcode
  rcases h u call next hcode ((hothers u hne).asleep hasleep) with hguard | hp
  · exact Or.inl hguard
  · exact Or.inr (hp.stays hothers hnot)

/-- After `notify_all` nobody sleeps unnotified. -/
theorem awake_notifyAll (v : σ) {th : Thread κ σ ρ} (hawake : th.phase ≠ .asleep false) :
    Awake code (s.notifyAll.setThread t th) v := by
  intro u call next _ hasleep
  by_cases hu : u = t
  · rw [hu, setThread_self] at hasleep
    exact absurd hasleep hawake
  · rw [setThread_of_ne hu] at hasleep
    exact absurd hasleep (notify_phase_ne (s.thread u))

theorem Awake.silent (h : Awake code s a.shared) (hR : Abstracts code s a)
    (heffect : Effect code s t e s') (hnone : deed e = none) : Awake code s' a.shared := by
  have hothers := heffect.others
  cases heffect with
  | acquired call next hcode hfree hphase =>
      have hnot : ¬ (s.thread t).phase.Pending := by
        rcases hphase with hphase | hphase <;> rw [hphase] <;> exact id
      exact h.frame hothers hnot (by rw [inPhase, setThread_self]; simp)
  | passed call next hcode hphase hguard =>
      exact h.frame hothers (by rw [hphase]; exact id) (by rw [inPhase, setThread_self]; simp)
  | waits call next hcode hphase hguard =>
      have hshared : a.shared = s.shared :=
        hR.shared (hR.not_running (by rw [hphase]; trivial) (by simp [hphase]))
      intro u call' next' hcode' hasleep
      by_cases hu : u = t
      · rw [hu, inPhase, setThread_self] at hcode'
        rw [show (_ : Instr τ κ σ ρ) = _ from hcode, Instr.locked.injEq] at hcode'
        obtain ⟨rfl, rfl⟩ := hcode'
        rw [hshared]
        exact Or.inl hguard
      · rw [(hothers u hu).control] at hcode'
        rcases h u call' next' hcode' ((hothers u hu).asleep hasleep) with hguard' | hp
        · exact Or.inl hguard'
        · exact Or.inr (hp.stays hothers (by rw [hphase]; exact id))
  | accessed call next change more hcode hphase =>
      exact h.frame hothers (by rw [hphase]; exact id) (by rw [inPhase, setThread_self]; simp)
  | returned call next result hcode hphase => cases hnone
  | notifiesInside call next result hcode hphase => exact awake_notifyAll _ (by simp)
  | releasedEarly call next result hcode hphase =>
      intro u call' next' _ _
      exact Or.inr ⟨t, by rw [inPhase, setThread_self]; trivial⟩
  | released call next result hcode hphase =>
      exact h.frame hothers (by rw [hphase]; exact id) (by rw [setThread_self]; simp)
  | notifiesOutside call next result hcode hphase => exact awake_notifyAll _ (by simp)
  | joined others next hcode hall => cases hnone

theorem Awake.visible {K : κ → Prop} (h : Awake code s a.shared) (hR : Abstracts code s a)
    (hclosed : Closed code K) (hnotifying : Notifying code K)
    (hK : ∀ u, K (s.thread u).control) (heffect : Effect code s t e s') {d : Deed τ ρ}
    (hsome : deed e = some d) (hstep : Atomic.step code a t = some (d, a')) :
    Awake code s' a'.shared := by
  have hK' := heffect.control_mem hclosed hK
  have hothers := heffect.others
  have hcontrol := hR.control t
  cases heffect with
  | returned call next result hcode hphase =>
      rw [resumes_of_before _ (by rw [hphase]; trivial)] at hcontrol
      have hcode' : code (a.control t) = .locked call next := by rw [hcontrol, hcode]
      obtain ⟨hguard, hd, rfl⟩ := Atomic.step_locked hcode' hstep
      cases hsome
      cases hd
      rcases Bool.eq_false_or_eq_true (call.notifies (call.body.run a.shared).1) with
        hnotifies | hnotifies
      · intro u call' next' _ _
        exact Or.inr ⟨t, by rw [inPhase, setThread_self, hnotifies]; trivial⟩
      · have hframe := h.frame hothers (by rw [hphase]; exact id)
          (by rw [inPhase, setThread_self]; simp)
        intro u call' next' hlocked hasleep
        rcases hframe u call' next' hlocked hasleep with hbefore | hp
        · -- the body has not made the guard true
          refine Or.inl (Bool.eq_false_iff.mpr fun hafter => ?_)
          have hbefore' := hnotifying _ _ _ _ _ _ (hK t) (hK' u) hcode hlocked _ hguard hnotifies
            hafter
          rw [hbefore] at hbefore'
          cases hbefore'
        · exact Or.inr hp
  | joined others next hcode hall =>
      have hnot : ∀ call next, code (s.thread t).control ≠ .locked call next := by
        intro call next' hlocked
        rw [hcode] at hlocked
        cases hlocked
      rw [resumes_of_not_locked hnot] at hcontrol
      obtain ⟨-, -, rfl⟩ := Atomic.step_join (by rw [hcontrol, hcode]) hstep
      exact h.frame hothers (by rw [hR.outside t hnot]; exact id) (by rw [setThread_self]; simp)
  | acquired call next hcode hfree hphase => cases hsome
  | passed call next hcode hphase hguard => cases hsome
  | waits call next hcode hphase hguard => cases hsome
  | accessed call next change more hcode hphase => cases hsome
  | notifiesInside call next result hcode hphase => cases hsome
  | releasedEarly call next result hcode hphase => cases hsome
  | released call next result hcode hphase => cases hsome
  | notifiesOutside call next result hcode hphase => cases hsome

end State

/-- **Nobody sleeps for nothing.** -/
theorem run_awake {code : κ → Instr τ κ σ ρ} {K : κ → Prop} (hclosed : Closed code K)
    (hnotifying : Notifying code K) (v : σ) {control : τ → κ} (hcontrol : ∀ t, K (control t))
    {h : List (Event τ ρ)} {s : State τ κ σ ρ}
    (hr : Run (State.step code) anyStep (.start v control) h s) :
    ∃ a, Run (Atomic.step code) anyStep (.start v control) (h.filterMap deed) a ∧
      s.Abstracts code a ∧ s.Awake code a.shared := by
  have hmem : ∀ h s, Run (State.step code) anyStep (.start v control) h s →
      ∀ u, K (s.thread u).control := fun h s hr =>
    hr.invariant (fun _ s => ∀ u, K (s.thread u).control) hcontrol fun _ _ _ _ _ hK _ hstep =>
      (State.effect_step hstep).control_mem hclosed hK
  apply hr.simulate deed (fun _ s a => s.Abstracts code a ∧ s.Awake code a.shared) _
    ⟨State.Abstracts.start code v control, fun u call next _ hasleep => by cases hasleep⟩
  · rintro h s t e s' a _ ⟨hR, hawake⟩ _ hstep hnone
    have heffect := State.effect_step hstep
    exact ⟨hR.silent heffect hnone, hawake.silent hR heffect hnone⟩
  · rintro h s t e s' a d hr ⟨hR, hawake⟩ _ hstep hsome
    have heffect := State.effect_step hstep
    obtain ⟨a', hstep', hR'⟩ := hR.visible heffect hsome
    exact ⟨t, a', hstep', hR',
      hawake.visible hR hclosed hnotifying (hmem h s hr) heffect hsome hstep'⟩

/-! ## Where it comes to a halt -/

namespace State

variable {code : κ → Instr τ κ σ ρ} {s : State τ κ σ ρ} {a : Atomic τ κ σ}

/-- Whoever holds the lock, or is to notify, can go on. -/
theorem step_ne_none {t : τ} {call : Section σ ρ} {next : ρ → κ}
    (hcode : code (s.thread t).control = .locked call next)
    (hphase : (s.thread t).phase.Inside ∨ (s.thread t).phase.Pending) :
    s.step code t ≠ none := by
  rw [step, hcode]
  show s.stepLocked call next t ≠ none
  rw [stepLocked]
  split
  · next hout =>
    rw [hout] at hphase
    exact hphase.elim False.elim False.elim
  · split <;> simp
  · next hasleep =>
    rw [hasleep] at hphase
    exact hphase.elim False.elim False.elim
  · next hasleep =>
    rw [hasleep] at hphase
    exact hphase.elim False.elim False.elim
  · simp
  · simp
  · split <;> simp
  · simp
  · simp

/-- While the lock is free, only a thread that sleeps unnotified makes no step in its section. -/
theorem asleep_of_stepLocked {t : τ} {call : Section σ ρ} {next : ρ → κ} (hfree : s.holder = none)
    (hnone : s.stepLocked call next t = none) : (s.thread t).phase = .asleep false := by
  have hacquire : s.acquire t ≠ none := by
    rw [acquire, hfree]
    simp
  rw [stepLocked] at hnone
  split at hnone
  · exact absurd hnone hacquire
  · split at hnone <;> cases hnone
  · next hasleep => exact hasleep
  · exact absurd hnone hacquire
  · cases hnone
  · cases hnone
  · split at hnone <;> cases hnone
  · cases hnone
  · cases hnone

/-- **A halt of the monitor is one of the atomic system.** -/
theorem stuck_atomic (hR : Abstracts code s a) (hawake : Awake code s a.shared)
    (hstuck : ∀ t, s.step code t = none) :
    s.shared = a.shared ∧ (∀ t, (s.thread t).control = a.control t) ∧
      ∀ t, Atomic.step code a t = none := by
  have hlocked : ∀ t phase, (s.thread t).phase = phase → phase ≠ .outside → ∃ call next,
      code (s.thread t).control = .locked call next := by
    intro t phase hphase hne
    by_contra hnot
    apply hne
    rw [← hphase]
    exact hR.outside t fun call next hcode => hnot ⟨call, next, hcode⟩
  have hstill : ∀ t, ¬ (s.thread t).phase.Inside ∧ ¬ (s.thread t).phase.Pending := by
    intro t
    apply not_or.mp
    intro hphase
    have hne : (s.thread t).phase ≠ .outside := by
      intro hout
      rw [hout] at hphase
      exact hphase.elim False.elim False.elim
    obtain ⟨call, next, hcode⟩ := hlocked t _ rfl hne
    exact step_ne_none hcode hphase (hstuck t)
  have hfree : s.holder = none := by
    by_contra hheld
    obtain ⟨t, ht⟩ := Option.ne_none_iff_exists'.mp hheld
    exact (hstill t).1 ((hR.lockOk t).mp ht)
  have hcontrol : ∀ t, (s.thread t).control = a.control t := by
    intro t
    have hbefore : (s.thread t).phase.Before := by
      obtain ⟨hinside, hpending⟩ := hstill t
      cases hphase : (s.thread t).phase with
      | leaving result pending =>
          rw [hphase] at hinside
          exact absurd trivial hinside
      | left result =>
          rw [hphase] at hpending
          exact absurd trivial hpending
      | _ => trivial
    rw [hR.control t, resumes_of_before _ hbefore]
  refine ⟨(hR.shared_of_free hfree).symm, hcontrol, fun t => ?_⟩
  have hnone := hstuck t
  rw [step, hcontrol t] at hnone
  rw [Atomic.step]
  cases hcode : code (a.control t) with
  | finished => rfl
  | join others next =>
      rw [hcode] at hnone
      simp only [hcontrol] at hnone
      split at hnone
      · cases hnone
      · next hall => simp only [hall, if_false, Bool.false_eq_true]
  | locked call next =>
      rw [hcode] at hnone
      -- a thread that waits for the lock could take it
      have hasleep : (s.thread t).phase = .asleep false := asleep_of_stepLocked hfree hnone
      have hguard : call.guard a.shared = false := by
        rcases hawake t call next ((hcontrol t).symm ▸ hcode) hasleep with hguard | ⟨w, hw⟩
        · exact hguard
        · exact absurd hw (hstill w).2
      simp only [hguard, Bool.false_eq_true, if_false]

end State

end Steps

end Monitor
