/-
# The unbuffered channel in Lua (`lua/csp/channel.lua`)

With capacity 0, `send` never waits: a value for which no receiver waits stays in the buffer, and
`send` returns.  It does not come to that as long as a receiver waits for each value that is
sent (`HandsOver`), and this depends on the order in which `scheduler` starts the coroutines:
those that have been started must be to receive at least as many values as they send
(`Lua.rendezvous_iff`).
-/
import Cocurrency.Csp.LuaDelivers
import Cocurrency.Csp.Rendezvous
import Mathlib.Algebra.BigOperators.Intervals

namespace Csp

namespace Lua

variable {α : Type*} {s s' : Lua α} {e : LuaEvent α} {cos : List (Body α)} {k : ℕ}
  {h : List (LuaEvent α)} {c : Co} {stack : List Co} {p : Point α}

/-! ## The books of those that have been started -/

/-- The coroutines that have not been started are where they were. -/
theorem Scheduled.total_split {capacity : ℕ} (hs : Scheduled capacity cos k s) (f : Point α → ℕ)
    (hf : f .dead = 0) :
    s.total cos.length f + ((cos.take k).map fun b => f b.point).sum =
      (cos.map fun b => f b.point).sum + s.total k f := by
  have hle := hs.control.le
  have hrest : ∑ c ∈ Finset.Ico k cos.length, f (s.point c) =
      ∑ c ∈ Finset.Ico k cos.length, f ((Lua.start capacity cos).point c) := by
    refine Finset.sum_congr rfl fun c hc => ?_
    obtain ⟨hkc, hcn⟩ := Finset.mem_Ico.mp hc
    rw [(hs.control.unstarted c hkc hcn).2]
  have hnow := Finset.sum_range_add_sum_Ico (fun c => f (s.point c)) hle
  have hfirst := Finset.sum_range_add_sum_Ico (fun c => f ((Lua.start capacity cos).point c)) hle
  have hall := total_start f hf capacity cos cos.length
  have htake := total_start f hf capacity cos k
  rw [List.take_length] at hall
  rw [total] at hall htake
  rw [total, total, ← hall, ← htake, ← hnow, ← hfirst, hrest]
  omega

/-- What the coroutines that have been started have sent and received, against what they were to
send and to receive. -/
theorem Scheduled.books {capacity : ℕ} (hs : Scheduled capacity cos k s) (hbooks : Books cos h s)
    (hnil : ∀ e ∈ h, e.isNil = false) :
    (h.filterMap LuaEvent.put).length + s.total k Point.values = sends (cos.take k) ∧
      (h.filterMap LuaEvent.take).length + s.total k Point.counts = receives (cos.take k) := by
  have hvalues := hbooks.values
  have hcounts := hbooks.counts hnil
  have hvalues' := hs.total_split Point.values rfl
  have hcounts' := hs.total_split Point.counts rfl
  rw [sends, receives]
  omega

/-- While no coroutine runs, all that those who have been started were to send has been sent, and
every `send` has returned. -/
theorem Scheduled.idle (hf : Fixed 0 cos.length s) (hs : Scheduled 0 cos k s)
    (hbooks : Books cos h s) (hnil : ∀ e ∈ h, e.isNil = false) (hstack : s.stack = []) :
    h.countP LuaEvent.sendReturns = sends (cos.take k) ∧
      (h.filterMap LuaEvent.put).length = sends (cos.take k) ∧
      (h.filterMap LuaEvent.take).length ≤ receives (cos.take k) := by
  have hnot : ∀ d, d ∉ s.stack := fun d => by rw [hstack]; exact List.not_mem_nil
  have hsenders : s.ch.senders = [] :=
    (hs.buffered.stable (topGoesOn_of_idle hstack)).senders_eq_nil (Or.inl hf.capacity_eq)
  have hvalues := hs.values_eq_zero hstack hsenders
  have hpending : s.total cos.length Point.pending = 0 := by
    refine total_eq_zero fun d _ => ?_
    have hret := hs.control.not_returning d (hnot d)
    cases hpoint : s.point d <;> simp_all [Point.isReturning, Point.pending]
  have hreturned := hbooks.pending
  obtain ⟨hput, htake⟩ := hs.books hbooks hnil
  omega

/-! ## Values that are handed over -/

/-- Whoever has resumed another coroutine is in `send`, and only then is there a value in the
buffer. -/
structure HandsOver (s : Lua α) : Prop where
  below : ∀ c ∈ s.stack.tail, (s.point c).pending = 1
  fetch : (∃ c ∈ s.stack.head?, (s.point c).isFetch = true) → s.stack.tail ≠ []
  empty : s.TopGoesOn → s.ch.buffer = []

theorem HandsOver.start (cos : List (Body α)) : HandsOver (Lua.start 0 cos) := by
  refine ⟨fun c hc => absurd hc List.not_mem_nil, ?_, fun _ => rfl⟩
  rintro ⟨c, hc, -⟩
  cases hc

theorem HandsOver.of_topGoesOn (htop : s.TopGoesOn)
    (hbelow : ∀ c ∈ s.stack.tail, (s.point c).pending = 1) (hbuffer : s.ch.buffer = []) :
    HandsOver s := by
  refine ⟨hbelow, ?_, fun _ => hbuffer⟩
  rintro ⟨c, hc, hfetch⟩
  rw [(htop c hc).2] at hfetch
  cases hfetch

/-- What is below the running coroutine has not moved. -/
theorem HandsOver.below_of_update {n : ℕ} {first : Co → Point α} (hh : HandsOver s)
    (hc : Control n first k s) (hstack : s.stack = c :: stack)
    (hpoint : s'.point = Function.update s.point c p) :
    ∀ d ∈ stack, (s'.point d).pending = 1 := by
  intro d hd
  rw [hpoint, Function.update_of_ne (hc.ne_of_below hstack hd)]
  exact hh.below d (by rw [hstack]; exact hd)

/-- The running coroutine goes on, and the buffer is empty. -/
theorem HandsOver.move {n : ℕ} {first : Co → Point α} (hh : HandsOver s)
    (hc : Control n first k s) (hstack : s.stack = c :: stack)
    (hp : p.isStore = false ∧ p.isFetch = false) {ch : LuaChannel α} (hbuffer : ch.buffer = []) :
    HandsOver { s.setPoint c p with ch := ch } := by
  refine .of_topGoesOn (topGoesOn_of_point (c := c) hstack ?_) (fun d hd => ?_) hbuffer
  · rw [show (s.setPoint c p).point c = p from Function.update_self _ _ _]
    exact hp
  · have hpoint : (s.setPoint c p).point = Function.update s.point c p := rfl
    refine hh.below_of_update hc hstack hpoint d ?_
    have htail : d ∈ s.stack.tail := hd
    rw [hstack] at htail
    exact htail

/-- The running coroutine leaves the stack. -/
theorem HandsOver.pop {n : ℕ} {first : Co → Point α} (hh : HandsOver s) (hc : Control n first k s)
    (hstack : s.stack = c :: stack) (hpoint : s'.point = Function.update s.point c p)
    (hstack' : s'.stack = s.stack.tail) (hbuffer : s'.ch.buffer = []) : HandsOver s' := by
  rw [hstack, List.tail_cons] at hstack'
  refine .of_topGoesOn (hc.topGoesOn_pop hstack hpoint hstack') (fun d hd => ?_) hbuffer
  rw [hstack'] at hd
  exact hh.below_of_update hc hstack hpoint d (List.mem_of_mem_tail hd)

/-- A value is handed to a receiver, which goes on. -/
theorem HandsOver.handOff {n : ℕ} {first : Co → Point α} (hh : HandsOver s)
    (hc : Control n first k s) (hstack : s.stack = c :: stack) {r : Co} {receivers : List Co}
    (hreceivers : s.ch.receivers = r :: receivers) (hp : p.pending = 1) (value : α) :
    HandsOver (resume { s.setPoint c p with
      ch := { s.ch with buffer := s.ch.buffer ++ [value], receivers := receivers } } r) := by
  have hmem : r ∈ s.ch.receivers := by rw [hreceivers]; exact List.mem_cons_self
  have hfetch := ((hc.receiver_iff r).mp hmem).2
  obtain ⟨hresume, -, hsame⟩ := hc.resume_eq hstack (Or.inl hmem) p
    { s.ch with buffer := s.ch.buffer ++ [value], receivers := receivers }
  rw [hresume]
  refine ⟨fun d hd => ?_, fun _ => ?_, fun htop => ?_⟩
  · -- `c` is in `send`, and so are those below it
    show ((s.setPoint c p).point d).pending = 1
    have hd' : d ∈ s.stack := hd
    rw [hstack] at hd'
    rcases List.mem_cons.mp hd' with rfl | hd'
    · rw [show (s.setPoint d p).point d = p from Function.update_self _ _ _]
      exact hp
    · have hpoint : (s.setPoint c p).point = Function.update s.point c p := rfl
      exact hh.below_of_update hc hstack hpoint d hd'
  · show s.stack ≠ []
    rw [hstack]
    exact List.cons_ne_nil _ _
  · have hno : ((s.setPoint c p).point r).isFetch = false := (htop r rfl).2
    rw [hsame, hfetch] at hno
    cases hno

/-- If those that have been started are to receive at least as much as they send, there is a
receiver for each value. -/
theorem HandsOver.exists_receiver (hh : HandsOver s) (hf : Fixed 0 cos.length s)
    (hs : Scheduled 0 cos k s) (hbooks : Books cos h s) (hnil : ∀ e ∈ h, e.isNil = false)
    (hfifo : h.filterMap LuaEvent.take ++ s.ch.buffer = h.filterMap LuaEvent.put)
    (hle : sends (cos.take k) ≤ receives (cos.take k)) {value : α} {rest : List α}
    (hstack : s.stack = c :: stack) (hpoint : s.point c = .produce (value :: rest)) :
    s.ch.receivers ≠ [] := by
  intro hreceivers
  have hmem : c ∈ s.stack := by rw [hstack]; exact List.mem_cons_self
  have hlt : c < k := by
    by_contra hge
    by_cases hcn : c < cos.length
    · exact (hs.control.unstarted c (Nat.le_of_not_lt hge) hcn).1 hmem
    · rw [hf.outside c (Nat.le_of_not_lt hcn)] at hpoint
      cases hpoint
  -- `c` has something to send, and nobody has anything to receive
  have hvalues : 1 ≤ s.total k Point.values := by
    refine Nat.le_trans ?_ (le_total Point.values hlt)
    rw [hpoint]
    exact Nat.succ_pos _
  have hcounts : s.total k Point.counts = 0 := by
    refine total_eq_zero fun d hd => ?_
    by_cases hdc : d = c
    · rw [hdc, hpoint]
      rfl
    by_cases hon : d ∈ s.stack
    · have hpending := hh.below d (by
        rw [hstack] at hon ⊢
        exact (List.mem_cons.mp hon).resolve_left hdc)
      cases hd : s.point d <;> simp_all [Point.pending, Point.counts]
    · rcases hs.off_stack hd hon with h | h | h
      · rw [h]
        rfl
      · have hstore := ((hs.control.sender_iff d).mp h).2
        cases hd : s.point d <;> simp_all [Point.isStore, Point.counts]
      · rw [hreceivers] at h
        cases h
  obtain ⟨hput, htake⟩ := hs.books hbooks hnil
  have hlength := congrArg List.length hfifo
  rw [List.length_append] at hlength
  omega

theorem Buffered.not_store (hb : Buffered s) (hcapacity : s.ch.capacity = 0)
    (hstack : s.stack = c :: stack) : (s.point c).isStore = false := by
  by_contra hne
  have hone := (hb.store ⟨c, by rw [hstack]; rfl, (Bool.not_eq_false _).mp hne⟩).1
  rw [hcapacity] at hone
  exact absurd hone (Nat.succ_ne_zero _)

/-- What a step does, if there is a receiver for each value that is sent. -/
theorem HandsOver.effect {n : ℕ} {first : Co → Point α} (hh : HandsOver s)
    (hcapacity : s.ch.capacity = 0) (hc : Control n first k s) (hb : Buffered s)
    (hstarts : s.Starts ())
    (hreceiver : ∀ c stack value rest, s.stack = c :: stack →
      s.point c = .produce (value :: rest) → s.ch.receivers ≠ [])
    (h : Effect s e s') : HandsOver s' := by
  have hempty : ∀ {c stack}, s.stack = c :: stack →
      (s.point c).isStore = false ∧ (s.point c).isFetch = false → s.ch.buffer = [] :=
    fun hstack hpoint => hh.empty (topGoesOn_of_point hstack hpoint)
  cases h with
  | resumed c threads hstack hthreads _ =>
      exact .of_topGoesOn (topGoesOn_of_point rfl (hstarts hstack c (by rw [hthreads]; rfl)))
        (fun d hd => absurd hd List.not_mem_nil) (hh.empty (topGoesOn_of_idle hstack))
  | dropped c threads _ _ _ => exact ⟨hh.below, hh.fetch, hh.empty⟩
  | produced c stack hstack hpoint =>
      exact hh.pop hc hstack rfl rfl (hempty hstack (by rw [hpoint]; exact ⟨rfl, rfl⟩))
  | consumed c stack hstack hpoint =>
      exact hh.pop hc hstack rfl rfl (hempty hstack (by rw [hpoint]; exact ⟨rfl, rfl⟩))
  | broke c stack count hstack hpoint =>
      exact hh.pop hc hstack rfl rfl (hempty hstack (by rw [hpoint]; exact ⟨rfl, rfl⟩))
  | recvSuspends c stack count hstack hpoint hbuffer => exact hh.pop hc hstack rfl rfl hbuffer
  | handOff c stack value rest r receivers hstack hpoint hreceivers =>
      exact hh.handOff hc hstack hreceivers rfl value
  | stored c stack value rest hstack hpoint hreceivers _ =>
      exact absurd hreceivers (hreceiver c stack value rest hstack hpoint)
  | sendSuspends c stack value rest _ _ _ hroom => exact absurd (Or.inl hcapacity) hroom
  | storedLate c stack value rest hstack hpoint =>
      have hno := hb.not_store hcapacity hstack
      rw [hpoint] at hno
      cases hno
  | sendReturned c stack rest hstack hpoint =>
      exact hh.move hc hstack ⟨rfl, rfl⟩ (hempty hstack (by rw [hpoint]; exact ⟨rfl, rfl⟩))
  | wake c stack count value buffer p senders hstack hpoint hbuffer _ =>
      have hnone := hempty hstack (by rw [hpoint]; exact ⟨rfl, rfl⟩)
      rw [hbuffer] at hnone
      cases hnone
  | took c stack count value buffer hstack hpoint hbuffer _ =>
      have hnone := hempty hstack (by rw [hpoint]; exact ⟨rfl, rfl⟩)
      rw [hbuffer] at hnone
      cases hnone
  | fetched c stack count value buffer hstack hpoint hbuffer =>
      obtain ⟨⟨v, hv⟩, -⟩ := hb.of_fetch hstack hpoint
      rw [hbuffer, List.cons.injEq] at hv
      exact hh.move hc hstack ⟨rfl, rfl⟩ hv.2
  | fetchedNil c stack count hstack hpoint hbuffer =>
      exact absurd hbuffer (hb.buffer_ne_nil hstack hpoint)
  | recvReturned c stack value count hstack hpoint =>
      exact hh.move hc hstack ⟨rfl, rfl⟩ (hempty hstack (by rw [hpoint]; exact ⟨rfl, rfl⟩))

/-! ## When the unbuffered channel hands over -/

/-- In the whole run that `scheduler` makes, the `send` calls wait for the receivers. -/
def AlwaysRendezvous (cos : List (Body α)) : Prop :=
  ∀ h s, Run step anyStep (start 0 cos) h s → Rendezvous LuaEvent.sendReturns LuaEvent.take h

/-- While `scheduler` resumes none that waits, every value is handed over. -/
theorem run_handsOver (hle : ∀ j, sends (cos.take j) ≤ receives (cos.take j))
    (hr : Run step Starts (start 0 cos) h s) : HandsOver s := by
  induction hr with
  | nil => exact .start cos
  | @snoc h s s' a e hr hok hs ih =>
      have hfixed := run_fixed hr
      obtain ⟨⟨k, hscheduled⟩, hnil⟩ := run_scheduled hr
      refine ih.effect hfixed.capacity_eq hscheduled.control hscheduled.buffered hok ?_
        (effect_step hfixed.isOpen hs)
      intro c stack value rest hstack hpoint
      exact ih.exists_receiver hfixed hscheduled (run_books hr) hnil (run_fifo hr) (hle k) hstack
        hpoint

/-- What is in the buffer is what a `send` that has not returned has put there. -/
theorem HandsOver.length_le (hh : HandsOver s) (hf : Fixed 0 cos.length s) (hb : Buffered s) :
    s.ch.buffer.length ≤ s.total cos.length Point.pending := by
  by_cases htop : s.TopGoesOn
  · rw [hh.empty htop]
    exact Nat.zero_le _
  obtain ⟨c, hc, hwaits⟩ : ∃ c ∈ s.stack.head?,
      ¬ ((s.point c).isStore = false ∧ (s.point c).isFetch = false) := by
    obtain ⟨c, hc⟩ := not_forall.mp htop
    exact ⟨c, Classical.not_imp.mp hc⟩
  obtain ⟨stack, hstack⟩ := List.head?_eq_some_iff.mp hc
  have hfetch : (s.point c).isFetch = true := by
    by_contra hne
    exact hwaits ⟨hb.not_store hf.capacity_eq hstack, Bool.eq_false_iff.mpr hne⟩
  -- `c` has been resumed by a coroutine in `send`
  obtain ⟨d, hd⟩ := List.exists_mem_of_ne_nil _ (hh.fetch ⟨c, hc, hfetch⟩)
  have hpending := hh.below d hd
  have hlt : d < cos.length := by
    by_contra hge
    rw [hf.outside d (Nat.le_of_not_lt hge)] at hpending
    cases hpending
  obtain ⟨⟨v, hv⟩, -⟩ := hb.fetch ⟨c, hc, hfetch⟩
  rw [hv, List.length_singleton, ← hpending]
  exact le_total Point.pending hlt

/-- When `scheduler` comes to a coroutine that waits, there is nothing left to be sent. -/
theorem sends_eq_of_waits (hr : Run step Starts (start 0 cos) h s) (hno : ¬ s.Starts ()) :
    s.stack = [] ∧ (h.filterMap LuaEvent.put).length = sends cos := by
  have hfixed := run_fixed hr
  obtain ⟨⟨k, hs⟩, hnil⟩ := run_scheduled hr
  obtain ⟨hstack, hk, -⟩ := hs.head_waits hno
  have hput := (hs.idle hfixed (run_books hr) hnil hstack).2.1
  rw [hk, List.take_length] at hput
  exact ⟨hstack, hput⟩

theorem rendezvous_of_le (hle : ∀ j, sends (cos.take j) ≤ receives (cos.take j))
    (hr : Run step anyStep (start 0 cos) h s) :
    Rendezvous LuaEvent.sendReturns LuaEvent.take h := by
  have hpending := (run_books hr).pending
  have hfifo := congrArg List.length (run_fifo hr)
  rw [List.length_append] at hfifo
  rw [Rendezvous]
  rcases hr.split_first Starts with hr₁ | ⟨h₁, s₁, h₂, a, rfl, hr₁, hno, -⟩
  · obtain ⟨⟨k, hs⟩, -⟩ := run_scheduled hr₁
    have hbuffer := (run_handsOver hle hr₁).length_le (run_fixed hr) hs.buffered
    omega
  · -- all has been sent and received before
    obtain ⟨hstack, hput⟩ := sends_eq_of_waits hr₁ hno
    have hempty := (run_handsOver hle hr₁).empty (topGoesOn_of_idle hstack)
    have hfifo₁ := congrArg List.length (run_fifo hr₁)
    rw [hempty, List.append_nil] at hfifo₁
    have hvalues := (run_books hr).values
    rw [← sends] at hvalues
    rw [List.filterMap_append, List.length_append] at hfifo ⊢
    omega

/-- Whenever no coroutine runs, those that have been started receive at least as much as they
send. -/
theorem le_of_rendezvous
    (hall : AlwaysRendezvous cos) (hr : Run step Starts (start 0 cos) h s) :
    ∃ k, Scheduled 0 cos k s ∧ (∀ j, j < k → sends (cos.take j) ≤ receives (cos.take j)) ∧
      (s.stack = [] → sends (cos.take k) ≤ receives (cos.take k)) := by
  have hidle : ∀ {h s k}, Run step Starts (start 0 cos) h s → Scheduled 0 cos k s →
      s.stack = [] → sends (cos.take k) ≤ receives (cos.take k) := by
    intro h s k hr hs hstack
    have hrendezvous := hall h s (hr.strengthen fun _ _ _ _ _ _ _ _ => trivial)
    rw [Rendezvous] at hrendezvous
    obtain ⟨hreturned, -, htake⟩ :=
      hs.idle (run_fixed hr) (run_books hr) (run_scheduled hr).2 hstack
    omega
  induction hr with
  | nil =>
      exact ⟨0, .start 0 cos, fun j hj => absurd hj (Nat.not_lt_zero j), fun _ => Nat.le_refl _⟩
  | @snoc h s s' a e hr hok hs ih =>
      obtain ⟨k, hscheduled, hbefore, hnow⟩ := ih
      have hfixed := run_fixed hr
      obtain ⟨⟨k', hscheduled', hk'⟩, -⟩ :=
        hscheduled.effect hfixed hok (effect_step hfixed.isOpen hs)
      refine ⟨k', hscheduled', fun j hj => ?_, hidle (hr.snoc hok hs) hscheduled'⟩
      rcases hk' with rfl | ⟨rfl, hstack, -⟩
      · exact hbefore j hj
      · rcases Nat.lt_succ_iff_lt_or_eq.mp hj with hj | rfl
        · exact hbefore j hj
        · exact hnow hstack

/-- **The unbuffered channel in Lua.**  No `send` returns ahead of its value, if and only if the
coroutines that are started first, however many, are to receive at least as many values as
they are to send. -/
theorem rendezvous_iff (cos : List (Body α)) :
    AlwaysRendezvous cos ↔ ∀ j, sends (cos.take j) ≤ receives (cos.take j) := by
  constructor
  · intro hall j
    obtain ⟨h, s, hr, hend⟩ := exists_run_starts 0 cos
    obtain ⟨k, hs, hbefore, hnow⟩ := le_of_rendezvous hall hr
    -- at the end of this run all coroutines have been started
    obtain ⟨hstack, hk⟩ : s.stack = [] ∧ k = cos.length := by
      by_cases hstarts : s.Starts ()
      · obtain ⟨hstack, -, hdead⟩ := hs.all_dead (hend hstarts)
        refine ⟨hstack, Nat.le_antisymm hs.control.le (Nat.le_of_not_lt fun hlt => ?_)⟩
        have hloop : ((start 0 cos).point k).isLooping = true := isLooping_start hlt
        rw [← (hs.control.unstarted k (Nat.le_refl _) hlt).2, hdead k] at hloop
        cases hloop
      · obtain ⟨hstack, hk, -⟩ := hs.head_waits hstarts
        exact ⟨hstack, hk⟩
    rcases Nat.lt_or_ge j k with hj | hj
    · exact hbefore j hj
    · have hfinal := hnow hstack
      rw [hk] at hj hfinal
      rw [List.take_length] at hfinal
      rw [List.take_of_length_le hj]
      exact hfinal
  · exact fun hle h s hr => rendezvous_of_le hle hr

end Lua

/-! ## The four channels -/

/-- **The unbuffered channels.**  In Python, C++ and Java some `send` returns ahead of its value in
some run, unless nothing is sent at all.  In Lua this happens if and only if some of the first
coroutines together send more than they receive. -/
theorem unbuffered_rendezvous_iff {ι α : Type*} [DecidableEq ι] :
    (∀ (toSend : ι → List α) (toReceive : ι → ℕ),
      (Threads.AlwaysRendezvous toSend toReceive ↔ ∀ t, toSend t = []) ∧
      (CppThreads.AlwaysRendezvous toSend toReceive ↔ ∀ t, toSend t = []) ∧
      (JavaThreads.AlwaysRendezvous toSend toReceive ↔ ∀ t, toSend t = [])) ∧
    ∀ cos : List (Body α),
      Lua.AlwaysRendezvous cos ↔ ∀ j, Lua.sends (cos.take j) ≤ Lua.receives (cos.take j) := by
  refine ⟨fun toSend toReceive => ⟨?_, ?_, ?_⟩, Lua.rendezvous_iff⟩
  · exact Parties.rendezvous_iff (fun s => ∀ t item, s.phase t ≠ .sending item) (fun _ => nofun)
      (fun t _ _ _ => Threads.keeps_quiet t) Threads.exists_send toSend toReceive
  · exact Parties.rendezvous_iff (fun s => ∀ t, (s.phase t).isSending = false) (fun _ => rfl)
      (fun t _ _ _ => CppThreads.keeps_quiet t) CppThreads.exists_send toSend toReceive
  · exact Parties.rendezvous_iff (fun s => ∀ t item, s.phase t ≠ .sending item) (fun _ => nofun)
      (fun t _ _ _ => JavaThreads.keeps_quiet t) JavaThreads.exists_send toSend toReceive

/-- Thread `true` sends one value and thread `false` receives it. -/
def oneValue : (Bool → List ℕ) × (Bool → ℕ) :=
  (fun t => if t then [1] else [], fun t => if t then 0 else 1)

/-- On none of the channels does the `send` wait for the `recv`. -/
theorem not_alwaysRendezvous :
    ¬ Threads.AlwaysRendezvous oneValue.1 oneValue.2 ∧
    ¬ CppThreads.AlwaysRendezvous oneValue.1 oneValue.2 ∧
    ¬ JavaThreads.AlwaysRendezvous oneValue.1 oneValue.2 ∧
    ¬ Lua.AlwaysRendezvous [.producer [1], .consumer 1] := by
  have hno : ¬ (1 ≤ 0) := by decide
  refine ⟨fun hall => ?_, fun hall => ?_, fun hall => ?_, fun hall => ?_⟩
  · have hr := run_of_replay (Parties.step (Threads.step (ι := Bool) (α := ℕ)) Threads.calls)
      (s := ⟨Threads.start 0, oneValue.1, oneValue.2⟩) [.send true, .go true] rfl
    exact hno (hall _ _ hr)
  · have hr := run_of_replay (Parties.step (CppThreads.step (ι := Bool) (α := ℕ)) CppThreads.calls)
      (s := ⟨CppThreads.start 0, oneValue.1, oneValue.2⟩) [.send true, .go true] rfl
    exact hno (hall _ _ hr)
  · have hr := run_of_replay
      (Parties.step (JavaThreads.step (ι := Bool) (α := ℕ)) JavaThreads.calls)
      (s := ⟨JavaThreads.start 0, oneValue.1, oneValue.2⟩) [.send true, .go true] rfl
    exact hno (hall _ _ hr)
  · have hr := run_of_replay (Lua.step (α := ℕ)) (s := Lua.start 0 [.producer [1], .consumer 1])
      (List.replicate 3 ()) rfl
    exact hno (hall _ _ hr)

end Csp
