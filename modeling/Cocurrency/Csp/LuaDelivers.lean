/-
# When a bounded channel delivers (`lua/csp/channel.lua`)

A coroutine that waits when its turn comes is resumed all the same: a sender then overfills the
buffer, a receiver gets `nil`.  It comes to that if and only if more is to be received than is sent,
or more is sent than is received and fits into the buffer (`lua_channel_iff`).
-/
import Cocurrency.Csp.LuaScheduler

namespace Csp

namespace Lua

variable {α : Type*} {s : Lua α} {capacity : ℕ} {cos : List (Body α)} {h : List (LuaEvent α)}

/-- How many values the coroutines are to send. -/
def sends (cos : List (Body α)) : ℕ := (cos.map fun b => b.point.values).sum

/-- How many values the coroutines are to receive. -/
def receives (cos : List (Body α)) : ℕ := (cos.map fun b => b.point.counts).sum

/-- The buffer keeps to its capacity, values are received in the order they are sent, and no
`recv` returns `nil`. -/
def Delivers (capacity : ℕ) (h : List (LuaEvent α)) (s : Lua α) : Prop :=
  s.ch.buffer.length ≤ capacity ∧
    h.filterMap LuaEvent.take ++ s.ch.buffer = h.filterMap LuaEvent.put ∧
    ∀ e ∈ h, e.isNil = false

/-- While `scheduler` resumes none that waits, the channel delivers. -/
theorem run_delivers_of_starts (hpos : 0 < capacity)
    (hr : Run step Starts (start capacity cos) h s) : Delivers capacity h s := by
  obtain ⟨⟨k, hs⟩, hnil⟩ := run_scheduled hr
  have hcapacity := (run_fixed hr).capacity_eq
  refine ⟨?_, run_fifo hr, hnil⟩
  rw [← hcapacity] at hpos ⊢
  exact hs.buffered.length_le hpos

/-- If the numbers fit, `scheduler` never comes to a coroutine that waits. -/
theorem starts_of_fits (hpos : 0 < capacity) (hle : receives cos ≤ sends cos)
    (hfits : sends cos ≤ receives cos + capacity)
    (hr : Run step Starts (start capacity cos) h s) : s.Starts () := by
  obtain ⟨⟨k, hs⟩, hnil⟩ := run_scheduled hr
  have hfixed := run_fixed hr
  have hbooks := run_books hr
  have hcounts := hbooks.counts hnil
  have hvalues := hbooks.values
  have hfifo := congrArg List.length (run_fifo hr)
  rw [List.length_append] at hfifo
  by_contra hno
  obtain ⟨hstack, rfl, c, threads, -, hwaits⟩ := hs.head_waits hno
  have hstable : Stable s.ch := hs.buffered.stable (topGoesOn_of_idle hstack)
  have hnot : c ∉ s.stack := by rw [hstack]; exact List.not_mem_nil
  have hlt : c < cos.length := by
    by_contra hge
    have hdead := hfixed.outside c (Nat.le_of_not_lt hge)
    rw [hdead] at hwaits
    rcases hwaits with h | h <;> cases h
  rcases hwaits with hstore | hfetch
  · -- a sender waits: the buffer is full and all is received that is to be received
    have hmem := (hs.control.sender_iff c).mpr ⟨hnot, hstore⟩
    obtain ⟨-, hfull⟩ := hstable.full (List.ne_nil_of_mem hmem)
    rw [hfixed.capacity_eq] at hfull
    have hreceivers : s.ch.receivers = [] :=
      hstable.receivers_eq_nil (fun h => by rw [h] at hfull; exact absurd hfull (Nat.ne_of_lt hpos))
    have hnone := hs.counts_eq_zero hstack hreceivers
    have hone : 1 ≤ s.total cos.length Point.values := by
      refine Nat.le_trans ?_ (le_total Point.values hlt)
      cases hpoint : s.point c <;> simp_all [Point.isStore, Point.values]
    rw [sends, receives] at hle hfits
    omega
  · -- a receiver waits: the buffer is empty and all is sent that is to be sent
    have hmem := (hs.control.receiver_iff c).mpr ⟨hnot, hfetch⟩
    have hempty := hstable.empty (List.ne_nil_of_mem hmem)
    have hsenders : s.ch.senders = [] := hstable.senders_eq_nil (by
      rw [hempty]
      exact Nat.eq_zero_or_pos _)
    have hnone := hs.values_eq_zero hstack hsenders
    have hone : 1 ≤ s.total cos.length Point.counts := by
      refine Nat.le_trans ?_ (le_total Point.counts hlt)
      cases hpoint : s.point c <;> simp_all [Point.isFetch, Point.counts]
    rw [hempty] at hfifo
    rw [sends, receives] at hle hfits
    simp only [List.length_nil] at hfifo
    omega

/-- The run that `scheduler` makes until it comes to a coroutine that waits, or to its end. -/
theorem exists_run_starts (capacity : ℕ) (cos : List (Body α)) :
    ∃ h s, Run step Starts (start capacity cos) h s ∧ (s.Starts () → s.step () = none) := by
  have hstuck : ∃ h s, Run step Starts (start capacity cos) h s ∧
      ∀ a, s.Starts a → s.step a = none :=
    Run.exists_stuck (Fixed capacity cos.length)
      (fun s => s.total cos.length Point.weight + s.threads.length)
      (fun s a e s' hf _ hs => hf.lowers hs) (Fixed.start capacity cos)
  obtain ⟨h, s, hr, hend⟩ := hstuck
  exact ⟨h, s, hr, hend ()⟩

theorem run_ne_none {c : Co} (halive : (s.point c).isDead = false) : s.run c ≠ none := by
  cases hpoint : s.point c with
  | produce values => cases values <;> simp [run, hpoint]
  | store | sent => simp [run, hpoint]
  | consume count => cases count <;> simp [run, hpoint]
  | fetch count => cases hbuffer : s.ch.buffer <;> simp [run, hpoint, hbuffer]
  | got item count => cases item <;> simp [run, hpoint]
  | dead =>
      rw [hpoint] at halive
      cases halive

/-- At its end all coroutines are dead. -/
theorem Scheduled.all_dead {k : ℕ} (hs : Scheduled capacity cos k s) (hend : s.step () = none) :
    s.stack = [] ∧ s.threads = [] ∧ ∀ c, s.point c = .dead := by
  obtain ⟨hstack, hthreads⟩ : s.stack = [] ∧ s.threads = [] := by
    unfold step at hend
    split at hend
    · next c stack hstack =>
      have halive := hs.control.alive c (by rw [hstack]; exact List.mem_cons_self)
      exact absurd hend (run_ne_none halive)
    · next hstack =>
      split at hend
      · next hthreads => exact ⟨hstack, hthreads⟩
      · split_ifs at hend
  refine ⟨hstack, hthreads, fun c => ?_⟩
  by_contra hne
  have halive : (s.point c).isDead = false := by
    cases hpoint : s.point c <;> simp_all [Point.isDead]
  rcases hs.control.reach c halive with h | h
  · rw [hthreads] at h
    cases h
  · rw [hstack] at h
    cases h

/-- Resuming a sender that waits overfills the buffer, and resuming a receiver that waits makes its
`recv` return `nil`. -/
theorem not_delivers_of_head_waits {k : ℕ} (hf : Fixed capacity cos.length s)
    (hs : Scheduled capacity cos k s) (hno : ¬ s.Starts ())
    (hr : Run step anyStep (start capacity cos) h s) :
    ∃ h' s', Run step anyStep (start capacity cos) h' s' ∧ ¬ Delivers capacity h' s' := by
  obtain ⟨hstack, -, c, threads, hthreads, hwaits⟩ := hs.head_waits hno
  have hstable : Stable s.ch := hs.buffered.stable (topGoesOn_of_idle hstack)
  have hnot : c ∉ s.stack := by rw [hstack]; exact List.not_mem_nil
  have hdead := (Control.isDead_of_waiting hwaits).1
  have hresumed : s.step () = some (.resumed c, { s with stack := [c], threads := threads }) := by
    simp [step, hstack, hthreads, hdead]
  have hr₁ := hr.snoc (a := ()) trivial hresumed
  rcases hwaits with hstore | hfetch
  · obtain ⟨-, hfull⟩ := hstable.full (List.ne_nil_of_mem ((hs.control.sender_iff c).mpr
      ⟨hnot, hstore⟩))
    obtain ⟨value, rest, hpoint⟩ : ∃ value rest, s.point c = .store value rest := by
      cases hpoint : s.point c <;> simp_all [Point.isStore]
    have hlate : step { s with stack := [c], threads := threads } () = some (.stored c value,
        { setPoint { s with stack := [c], threads := threads } c (.sent rest) with
          ch := { s.ch with buffer := s.ch.buffer ++ [value] } }) := by
      simp only [step, run, hpoint]
    refine ⟨_, _, hr₁.snoc (a := ()) trivial hlate, fun hdelivers => ?_⟩
    have hle : (s.ch.buffer ++ [value]).length ≤ capacity := hdelivers.1
    rw [List.length_append, hfull, hf.capacity_eq] at hle
    simp at hle
  · have hempty := hstable.empty (List.ne_nil_of_mem ((hs.control.receiver_iff c).mpr
      ⟨hnot, hfetch⟩))
    obtain ⟨count, hpoint⟩ : ∃ count, s.point c = .fetch count := by
      cases hpoint : s.point c <;> simp_all [Point.isFetch]
    have hnil : step { s with stack := [c], threads := threads } () = some (.tookNil c,
        setPoint { s with stack := [c], threads := threads } c (.got none count)) := by
      simp only [step, run, hpoint, hempty]
    refine ⟨_, _, hr₁.snoc (a := ()) trivial hnil, fun hdelivers => ?_⟩
    have hno := hdelivers.2.2 (.tookNil c) (List.mem_append_right _ (List.mem_singleton_self _))
    cases hno

/-- **The bounded channel.**  On a channel with room, `scheduler` runs the coroutines to a good end,
whatever their order, if and only if they are to receive no more values than they are to
send, and those that are left over fit into the buffer. -/
theorem lua_channel_iff (capacity : ℕ) (hpos : 0 < capacity) (cos : List (Body α)) :
    (∀ h s, Run step anyStep (start capacity cos) h s → Delivers capacity h s) ↔
      receives cos ≤ sends cos ∧ sends cos ≤ receives cos + capacity := by
  constructor
  · intro hall
    obtain ⟨h, s, hr, hend⟩ := exists_run_starts capacity cos
    obtain ⟨⟨k, hs⟩, hnil⟩ := run_scheduled hr
    have hany : Run step anyStep (start capacity cos) h s :=
      hr.strengthen fun _ _ _ _ _ _ _ _ => trivial
    by_cases hstarts : s.Starts ()
    · obtain ⟨-, -, hdead⟩ := hs.all_dead (hend hstarts)
      have hbooks := run_books hr
      have hvalues := hbooks.values
      have hcounts := hbooks.counts hnil
      rw [total_eq_zero fun c _ => by rw [hdead c]; rfl] at hvalues hcounts
      obtain ⟨hle, hfifo, -⟩ := hall h s hany
      have hlength := congrArg List.length hfifo
      rw [List.length_append] at hlength
      rw [sends, receives]
      omega
    · obtain ⟨h', s', hr', hno⟩ := not_delivers_of_head_waits (run_fixed hr) hs hstarts hany
      exact absurd (hall h' s' hr') hno
  · rintro ⟨hle, hfits⟩ h s hr
    refine run_delivers_of_starts hpos (hr.strengthen_along fun h s a _ _ hr _ _ => ?_)
    exact starts_of_fits hpos hle hfits hr

/-- The two producers and two consumers of the buffered demo. -/
def demoBuffered : List (Body ℕ) :=
  [.producer [10, 20, 30, 40, 50], .producer [60, 70, 80, 90, 100], .consumer 5, .consumer 5]

/-- In the demo as many values are received as are sent.  The run goes beyond the first value that
is received, with both producers suspended before. -/
theorem lua_channel_iff_demo : ∃ h s, Run step anyStep (start 3 demoBuffered) h s ∧
    h.filterMap LuaEvent.take = [10] ∧ Delivers 3 h s := by
  have hr := run_of_replay step (s := start 3 demoBuffered) (List.replicate 13 ()) rfl
  exact ⟨_, _, hr, rfl, (lua_channel_iff 3 (by decide) demoBuffered).mpr (by decide) _ _ hr⟩

/-- Two values to receive and one that is sent: the consumer, which waits for the second one, is
resumed by `scheduler`, and its `recv` returns `nil`. -/
theorem not_delivers : ¬ ∀ capacity, 0 < capacity → ∀ (cos : List (Body ℕ)) h s,
    Run step anyStep (start capacity cos) h s → Delivers capacity h s := by
  intro hall
  have hr := run_of_replay step (s := start 1 [.producer [1], .consumer 2])
    (List.replicate 10 ()) rfl
  have hnil := (hall 1 (by decide) _ _ _ hr).2.2 (.tookNil 1) (by simp)
  cases hnil

end Lua

end Csp
