/-
# Monitors halt

A thread of a monitor that has not come to the end of a body can make only so many steps: it takes
the lock, finds that its guard does not hold and sleeps, or runs its body, which has so many
accesses.  It is woken up only by a `notify_all`, and there is at most one for each body.  So a
monitor halts if the atomic system does (`halts_start`).
-/
import Cocurrency.Lib.Halting
import Cocurrency.Lib.MonitorAwake
import Mathlib.Algebra.Order.BigOperators.Group.Finset
import Mathlib.Data.Fintype.Basic

namespace Monitor

variable {τ κ σ ρ : Type*} (code : κ → Instr τ κ σ ρ)

/-- The number of steps that thread `t` can make in its next section, from outside of it. -/
def weight (a : Atomic τ κ σ) (t : τ) : ℕ :=
  match code (a.control t) with
  | .locked call _ => call.body.length a.shared + 3
  | _ => 0

/-- The number of steps of a thread with weight `w`, and of those that it may wake up. -/
def Phase.weight (v : σ) (w total : ℕ) : Phase σ ρ → ℕ
  | .outside | .asleep true => w
  | .checking => w - 1
  | .asleep false => 0
  | .running rest => rest.length v + 1
  | .leaving _ false => w + 1
  | .leaving _ true => w + total + 2
  | .left _ => w + total + 1

theorem weight_of_locked {a : Atomic τ κ σ} {t : τ} {call : Section σ ρ} {next : ρ → κ}
    (hcode : code (a.control t) = .locked call next) :
    weight code a t = call.body.length a.shared + 3 := by
  rw [weight, hcode]

/-- A notification costs the steps of those that are woken up. -/
theorem notify_weight_le (v : σ) (w total : ℕ) (th : Thread κ σ ρ) :
    th.notify.phase.weight v w total ≤ th.phase.weight v w total + w := by
  rw [Thread.notify]
  split
  · next hphase => exact Nat.le_add_left _ _
  · exact Nat.le_add_right _ _

section Sums

variable [Fintype τ] [DecidableEq τ] {f g w : τ → ℕ} {t : τ}

omit [DecidableEq τ] in
theorem sum_lt_of_one (hothers : ∀ u, u ≠ t → g u = f u) (ht : g t < f t) :
    ∑ u, g u < ∑ u, f u := by
  apply Finset.sum_lt_sum
  · intro u _
    by_cases hu : u = t
    · rw [hu]
      exact Nat.le_of_lt ht
    · exact Nat.le_of_eq (hothers u hu)
  · exact ⟨t, Finset.mem_univ t, ht⟩

theorem sum_lt_of_rest (hothers : ∀ u, u ≠ t → g u ≤ f u + w u) (ht : g t + ∑ u, w u < f t) :
    ∑ u, g u < ∑ u, f u := by
  have hrest : ∑ u ∈ Finset.univ.erase t, g u ≤
      ∑ u ∈ Finset.univ.erase t, f u + ∑ u, w u := by
    calc ∑ u ∈ Finset.univ.erase t, g u
        ≤ ∑ u ∈ Finset.univ.erase t, (f u + w u) :=
          Finset.sum_le_sum fun u hu => hothers u (Finset.ne_of_mem_erase hu)
      _ = ∑ u ∈ Finset.univ.erase t, f u + ∑ u ∈ Finset.univ.erase t, w u :=
          Finset.sum_add_distrib
      _ ≤ ∑ u ∈ Finset.univ.erase t, f u + ∑ u, w u :=
          Nat.add_le_add_left (Finset.sum_le_sum_of_subset (Finset.erase_subset t _)) _
  rw [← Finset.add_sum_erase _ g (Finset.mem_univ t),
    ← Finset.add_sum_erase _ f (Finset.mem_univ t)]
  omega

/-- One summand is replaced. -/
theorem sum_update_add {M : Type*} [AddCommMonoid M] (f : κ → M) (control : τ → κ) (t : τ) (k : κ) :
    ∑ u, f (Function.update control t k u) + f (control t) = ∑ u, f (control u) + f k := by
  have hrest : ∑ u ∈ Finset.univ.erase t, f (Function.update control t k u) =
      ∑ u ∈ Finset.univ.erase t, f (control u) := by
    apply Finset.sum_congr rfl
    intro u hu
    rw [Function.update_of_ne (Finset.ne_of_mem_erase hu)]
  rw [← Finset.add_sum_erase _ (fun u => f (Function.update control t k u)) (Finset.mem_univ t),
    ← Finset.add_sum_erase _ (fun u => f (control u)) (Finset.mem_univ t), hrest,
    Function.update_self]
  ac_rfl

end Sums

variable [Fintype τ] [DecidableEq τ]

namespace State

/-- The number of steps before the next body comes to its end, at most. -/
def remaining (s : State τ κ σ ρ) (a : Atomic τ κ σ) : ℕ :=
  ∑ u, (s.thread u).phase.weight s.shared (weight code a u) (∑ u, weight code a u)

variable {code} {s s' : State τ κ σ ρ} {a : Atomic τ κ σ} {t : τ} {e : Event τ ρ}

omit [DecidableEq τ] in
/-- Only a thread that runs its body has to do with the shared value. -/
theorem weight_congr {phase : Phase σ ρ} (h : ∀ rest, phase ≠ .running rest) (v v' : σ)
    (w total : ℕ) : phase.weight v w total = phase.weight v' w total := by
  cases phase with
  | running rest => exact absurd rfl (h rest)
  | asleep notified => cases notified <;> rfl
  | leaving result pending => cases pending <;> rfl
  | _ => rfl

/-- A step of a thread alone. -/
theorem remaining_lt_of_update {th : Thread κ σ ρ}
    (hthread : s'.thread = Function.update s.thread t th)
    (hshared : s'.shared = s.shared ∨ ∀ u, u ≠ t → ∀ rest, (s.thread u).phase ≠ .running rest)
    (hlt : th.phase.weight s'.shared (weight code a t) (∑ u, weight code a u) <
      (s.thread t).phase.weight s.shared (weight code a t) (∑ u, weight code a u)) :
    s'.remaining code a < s.remaining code a := by
  apply sum_lt_of_one (t := t)
  · intro u hu
    rw [hthread, Function.update_of_ne hu]
    rcases hshared with hshared | hnot
    · rw [hshared]
    · exact weight_congr (hnot u hu) _ _ _ _
  · rw [hthread, Function.update_self]
    exact hlt

/-- A `notify_all`. -/
theorem remaining_lt_of_notify {th : Thread κ σ ρ}
    (hthread : s'.thread = Function.update s.notifyAll.thread t th)
    (hshared : s'.shared = s.shared)
    (hlt : th.phase.weight s.shared (weight code a t) (∑ u, weight code a u) +
        ∑ u, weight code a u <
      (s.thread t).phase.weight s.shared (weight code a t) (∑ u, weight code a u)) :
    s'.remaining code a < s.remaining code a := by
  apply sum_lt_of_rest (t := t) (w := weight code a)
  · intro u hu
    rw [hthread, Function.update_of_ne hu, hshared]
    exact notify_weight_le _ _ _ (s.thread u)
  · rw [hthread, Function.update_self, hshared]
    exact hlt

/-- A step that ends no body lowers the number. -/
theorem remaining_lt (hR : Abstracts code s a) (heffect : Effect code s t e s')
    (hnone : deed e = none) : s'.remaining code a < s.remaining code a := by
  have hcontrol := hR.control t
  have hweight : ∀ call next, code (s.thread t).control = .locked call next →
      (s.thread t).phase.Before → weight code a t = call.body.length a.shared + 3 := by
    intro call next hcode hbefore
    rw [resumes_of_before _ hbefore] at hcontrol
    exact weight_of_locked code (hcontrol ▸ hcode)
  cases heffect with
  | acquired call next hcode hfree hphase =>
      have hw := hweight call next hcode (by rcases hphase with h | h <;> rw [h] <;> trivial)
      refine remaining_lt_of_update rfl (Or.inl rfl) ?_
      rcases hphase with hphase | hphase <;> rw [hphase, hw] <;>
        exact Nat.sub_lt (Nat.succ_pos _) Nat.one_pos
  | passed call next hcode hphase hguard =>
      have hw := hweight call next hcode (by rw [hphase]; trivial)
      have hshared : a.shared = s.shared :=
        hR.shared (hR.not_running (by rw [hphase]; trivial) (by simp [hphase]))
      refine remaining_lt_of_update rfl (Or.inl rfl) ?_
      rw [hphase, hw, hshared]
      exact Nat.lt_succ_self _
  | waits call next hcode hphase hguard =>
      have hw := hweight call next hcode (by rw [hphase]; trivial)
      refine remaining_lt_of_update rfl (Or.inl rfl) ?_
      rw [hphase, hw]
      exact Nat.succ_pos _
  | accessed call next change more hcode hphase =>
      refine remaining_lt_of_update rfl (Or.inr fun u hu rest hrunning => hu ?_) ?_
      · exact hR.lockOk.unique (by rw [hphase]; trivial) (by rw [hrunning]; trivial)
      · rw [hphase]
        exact Nat.lt_succ_self _
  | returned call next result hcode hphase => cases hnone
  | notifiesInside call next result hcode hphase =>
      refine remaining_lt_of_notify rfl rfl ?_
      rw [hphase]
      show weight code a t + 1 + _ < weight code a t + _ + 2
      omega
  | releasedEarly call next result hcode hphase =>
      refine remaining_lt_of_update rfl (Or.inl rfl) ?_
      rw [hphase]
      exact Nat.lt_succ_self _
  | released call next result hcode hphase =>
      refine remaining_lt_of_update rfl (Or.inl rfl) ?_
      rw [hphase]
      exact Nat.lt_succ_self _
  | notifiesOutside call next result hcode hphase =>
      refine remaining_lt_of_notify rfl rfl ?_
      rw [hphase]
      exact Nat.lt_succ_self _
  | joined others next hcode hall => cases hnone

end State

variable {code}

/-- **A monitor halts if the atomic system does.** -/
theorem halts_of_abstracts {s : State τ κ σ ρ} {a : Atomic τ κ σ}
    (h : Halts (Atomic.step code) a) (hR : s.Abstracts code a) : Halts (State.step code) s := by
  apply h.of_simulation (fun s a => s.Abstracts code a) (fun s a => s.remaining code a) _ hR
  intro s a t e s' hR hstep
  have heffect := State.effect_step hstep
  cases hdeed : deed e with
  | none => exact Or.inl ⟨hR.silent heffect hdeed, State.remaining_lt hR heffect hdeed⟩
  | some d =>
      obtain ⟨a', hstep', hR'⟩ := hR.visible heffect hdeed
      exact Or.inr ⟨a', ⟨t, d, hstep'⟩, hR'⟩

theorem halts_start {v : σ} {control : τ → κ}
    (h : Halts (Atomic.step code) (.start v control)) :
    Halts (State.step code) (.start v control) :=
  halts_of_abstracts h (State.Abstracts.start code v control)

end Monitor
