/-
# Lines that show the state of a network

A process may print a line that says something of the state in which it is printed, as how many
values are in the buffer of a channel.  Which line it is then depends on the schedule.  The network
prints forms of lines, that is, functions of what is viewed; these do not.

* `viewStep` : the network with the lines as they are printed;
* `DeterminedForms`, `Determined.forms` : each process prints the lines of its forms.
-/
import Cocurrency.Lib.Network

namespace Network

variable {τ χ β ο ω κ : Type*} [DecidableEq τ] [DecidableEq χ]

/-- How many values are in the buffer of a channel; a value whose send waits for room is not. -/
def buffered (net : Network τ χ β ο κ) (c : χ) (s : τ → Process τ χ β κ) : ℕ :=
  min (((s (net.sender c)).sent c).length - (s (net.receiver c)).taken c) (net.capacity c)

/-- The steps, with the lines as they are printed. -/
def viewStep (net : Network τ χ β (ω → ο) κ) (view : (τ → Process τ χ β κ) → ω)
    (s : τ → Process τ χ β κ) (t : τ) : Option ((τ × Option ο) × (τ → Process τ χ β κ)) :=
  match net.step s t with
  | some (e, s') => some ((e.1, e.2.output.map fun form => form (view s)), s')
  | none => none

/-- What a process has printed. -/
def shown (t : τ) (h : List (τ × Option ο)) : List ο := (eventsOf t h).filterMap id

/-- A line of a form. -/
def Shows (good : ω → Prop) (line : ο) (form : ω → ο) : Prop := ∃ v, good v ∧ line = form v

/-- Whatever the schedule: no run goes on for ever, no process panics, process `t` prints lines of a
prefix of the forms `out t`, and where the processes cannot go on they are in the state `final` and
have printed lines of all of `out`, after the same number of steps. -/
structure DeterminedForms (net : Network τ χ β (ω → ο) κ) (view : (τ → Process τ χ β κ) → ω)
    (good : ω → Prop) (final : τ → Process τ χ β κ) (out : τ → List (ω → ο)) : Prop where
  halts : Halts (net.viewStep view) net.start
  calm : ∀ h s, Run (net.viewStep view) anyStep net.start h s → ∀ t, (s t).phase ≠ .panicked
  shown : ∀ h s, Run (net.viewStep view) anyStep net.start h s → ∀ t, ∃ forms, forms <+: out t ∧
    List.Forall₂ (Shows good) (shown t h) forms
  ends : ∀ h s, Run (net.viewStep view) anyStep net.start h s →
    (∀ t, net.viewStep view s t = none) →
      s = final ∧ ∀ t, List.Forall₂ (Shows good) (Network.shown t h) (out t)
  length : ∀ h s h' s', Run (net.viewStep view) anyStep net.start h s →
    (∀ t, net.viewStep view s t = none) → Run (net.viewStep view) anyStep net.start h' s' →
      (∀ t, net.viewStep view s' t = none) → h.length = h'.length

variable {net : Network τ χ β (ω → ο) κ} {view : (τ → Process τ χ β κ) → ω}
  {s s' : τ → Process τ χ β κ} {t : τ}

/-- A step of the one is a step of the other. -/
theorem viewStep_eq_some {d : τ × Option ο} (h : net.viewStep view s t = some (d, s')) :
    ∃ e, net.step s t = some (e, s') ∧ d = (e.1, e.2.output.map fun form => form (view s)) := by
  rw [viewStep] at h
  split at h
  · next e s₁ hs =>
    cases h
    exact ⟨e, hs, rfl⟩
  · cases h

/-- Where the one cannot go on, the other cannot either. -/
theorem step_none_of_viewStep (h : net.viewStep view s t = none) : net.step s t = none := by
  rw [viewStep] at h
  split at h
  · cases h
  · next hs => exact hs

omit [DecidableEq χ] in
/-- The lines that an event adds are those of the forms that it adds. -/
theorem shows_snoc {good : ω → Prop} {u : τ} {h : List (τ × Option ο)}
    {h₀ : List (τ × Event τ χ β (ω → ο))}
    (hshown : List.Forall₂ (Shows good) (shown u h) (printed u h₀)) (e : τ × Event τ χ β (ω → ο))
    {v : ω} (hv : good v) :
    List.Forall₂ (Shows good) (shown u (h ++ [(e.1, e.2.output.map fun form => form v)]))
      (printed u (h₀ ++ [e])) := by
  obtain ⟨t, e⟩ := e
  by_cases hu : t = u
  · subst hu
    rw [shown, eventsOf_snoc_self, printed, eventsOf_snoc_self, List.filterMap_append,
      List.filterMap_append]
    refine List.rel_append hshown ?_
    cases ho : e.output with
    | none => simp [ho]
    | some form => simpa [ho] using ⟨v, hv, rfl⟩
  · rw [shown, eventsOf_snoc_of_ne hu, printed, eventsOf_snoc_of_ne hu]
    exact hshown

/-- **A run with lines is a run with forms.** -/
theorem run_of_viewStep {good : ω → Prop} (hgood : ∀ s, good (view s)) {h : List (τ × Option ο)}
    {s₀ : τ → Process τ χ β κ} (hr : Run (net.viewStep view) anyStep s₀ h s) :
    ∃ h₀, Run net.step anyStep s₀ h₀ s ∧ h.length = h₀.length ∧
      ∀ u, List.Forall₂ (Shows good) (shown u h) (printed u h₀) := by
  induction hr with
  | nil => exact ⟨[], .nil, rfl, fun _ => .nil⟩
  | @snoc h s s' t d _ _ hs ih =>
      obtain ⟨h₀, hr₀, hlength, hshown⟩ := ih
      obtain ⟨e, hs₀, rfl⟩ := viewStep_eq_some hs
      refine ⟨h₀ ++ [e], hr₀.snoc trivial hs₀, ?_, fun u => shows_snoc (hshown u) e (hgood s)⟩
      rw [List.length_append, List.length_append, hlength]
      rfl

/-- **What is printed is determined up to what is viewed.** -/
theorem Determined.forms {final : τ → Process τ χ β κ} {out : τ → List (ω → ο)}
    (h : net.Determined final out) {good : ω → Prop} (hgood : ∀ s, good (view s)) :
    net.DeterminedForms view good final out where
  halts := by
    refine Subrelation.accessible (fun {s' s} hfollows => ?_) h.halts
    obtain ⟨t, d, hs⟩ := hfollows
    obtain ⟨e, hs₀, -⟩ := viewStep_eq_some hs
    exact ⟨t, e, hs₀⟩
  calm hist s hr := by
    obtain ⟨h₀, hr₀, -, -⟩ := run_of_viewStep hgood hr
    exact h.calm h₀ s hr₀
  shown hist s hr t := by
    obtain ⟨h₀, hr₀, -, hshown⟩ := run_of_viewStep hgood hr
    exact ⟨Network.printed t h₀, h.printed h₀ s hr₀ t, hshown t⟩
  ends hist s hr hend := by
    obtain ⟨h₀, hr₀, -, hshown⟩ := run_of_viewStep hgood hr
    obtain ⟨hfinal, hprinted⟩ := h.ends h₀ s hr₀ fun t => step_none_of_viewStep (hend t)
    exact ⟨hfinal, fun t => hprinted t ▸ hshown t⟩
  length hist s hist' s' hr hend hr' hend' := by
    obtain ⟨h₀, hr₀, hlength, -⟩ := run_of_viewStep hgood hr
    obtain ⟨h₀', hr₀', hlength', -⟩ := run_of_viewStep hgood hr'
    rw [hlength, hlength']
    exact h.length h₀ s h₀' s' hr₀ (fun t => step_none_of_viewStep (hend t)) hr₀'
      fun t => step_none_of_viewStep (hend' t)

end Network
