/-
# What `scheduler` resumes (`lua/csp/channel.lua`)

As long as `scheduler` resumes no coroutine that waits in `send` or `recv`, the buffer is full while
a sender waits and empty while a receiver does (`Buffered`), and no `recv` returns `nil`
(`run_scheduled`).  It comes to a coroutine that waits only when it has started all of them
(`Scheduled.head_waits`).
-/
import Cocurrency.Csp.LuaControl
import Mathlib.Algebra.Order.BigOperators.Group.Finset

namespace Csp

namespace Lua

variable {α : Type*} {s s' : Lua α} {e : LuaEvent α}

section Step

variable {n k : ℕ} {first : Co → Point α} {c : Co} {stack : List Co} {p : Point α}

/-! ## The buffer -/

/-- The buffer is full while a sender waits, empty while a receiver does, and never holds more than
its capacity, if it has one. -/
structure Stable (ch : LuaChannel α) : Prop where
  full : ch.senders ≠ [] → 0 < ch.capacity ∧ ch.buffer.length = ch.capacity
  empty : ch.receivers ≠ [] → ch.buffer = []
  bounded : 0 < ch.capacity → ch.buffer.length ≤ ch.capacity

/-- No sender waits for room, or no receiver for a value, that is there. -/
theorem Stable.senders_eq_nil {ch : LuaChannel α} (h : Stable ch)
    (hlt : ch.capacity = 0 ∨ ch.buffer.length < ch.capacity) : ch.senders = [] := by
  by_contra hne
  obtain ⟨hpos, heq⟩ := h.full hne
  omega

/-- With a value in the buffer no receiver waits. -/
theorem Stable.receivers_eq_nil {ch : LuaChannel α} (h : Stable ch) (hne : ch.buffer ≠ []) :
    ch.receivers = [] := by
  by_contra hr
  exact hne (h.empty hr)

/-- The coroutine at the top of the stack does not wait. -/
def TopGoesOn (s : Lua α) : Prop :=
  ∀ c ∈ s.stack.head?, (s.point c).isStore = false ∧ (s.point c).isFetch = false

/-- What the buffer holds: as in `Stable`, but for a receiver or a sender that has been resumed by
its peer and has not yet done its part. -/
structure Buffered (s : Lua α) : Prop where
  fetch : (∃ c ∈ s.stack.head?, (s.point c).isFetch = true) →
    (∃ value, s.ch.buffer = [value]) ∧ s.ch.senders = []
  store : (∃ c ∈ s.stack.head?, (s.point c).isStore = true) →
    s.ch.buffer.length + 1 = s.ch.capacity ∧ s.ch.receivers = []
  stable : s.TopGoesOn → Stable s.ch

/-- A coroutine that is about to fetch finds one value, and nobody waits to send. -/
theorem Buffered.of_fetch (hb : Buffered s) {c : Co} {stack : List Co} {count : ℕ}
    (hstack : s.stack = c :: stack) (hpoint : s.point c = .fetch count) :
    (∃ value, s.ch.buffer = [value]) ∧ s.ch.senders = [] :=
  hb.fetch ⟨c, by rw [hstack]; rfl, by rw [hpoint]; rfl⟩

/-- The receiver that has been resumed by its peer finds a value. -/
theorem Buffered.buffer_ne_nil (hb : Buffered s) {c : Co} {stack : List Co} {count : ℕ}
    (hstack : s.stack = c :: stack) (hpoint : s.point c = .fetch count) : s.ch.buffer ≠ [] := by
  obtain ⟨⟨value, hvalue⟩, -⟩ := hb.of_fetch hstack hpoint
  rw [hvalue]
  exact List.cons_ne_nil _ _

/-- When the running coroutine does not wait, the channel is stable. -/
theorem Buffered.of_stable (hstable : Stable s.ch) (htop : s.TopGoesOn) : Buffered s := by
  refine ⟨?_, ?_, fun _ => hstable⟩
  · rintro ⟨c, hc, hfetch⟩
    rw [(htop c hc).2] at hfetch
    cases hfetch
  · rintro ⟨c, hc, hstore⟩
    rw [(htop c hc).1] at hstore
    cases hstore

theorem topGoesOn_of_idle (hstack : s.stack = []) : s.TopGoesOn := by
  rw [TopGoesOn, hstack]
  exact fun _ hd => by cases hd

/-- The running coroutine is in its loop, or about to return. -/
theorem topGoesOn_of_point {s : Lua α} {c : Co} {stack : List Co} (hstack : s.stack = c :: stack)
    (hpoint : (s.point c).isStore = false ∧ (s.point c).isFetch = false) : s.TopGoesOn := by
  intro d hd
  rw [hstack] at hd
  rw [← Option.some.inj hd]
  exact hpoint

/-- When the running coroutine leaves the stack, the one below is about to return. -/
theorem Control.topGoesOn_pop (hc : Control n first k s) (hstack : s.stack = c :: stack)
    (hpoint : s'.point = Function.update s.point c p) (hstack' : s'.stack = stack) :
    s'.TopGoesOn := by
  intro d hd
  rw [hstack'] at hd
  have hmem : d ∈ stack := List.mem_of_mem_head? hd
  have hdc : d ≠ c := hc.ne_of_below hstack hmem
  have hret := hc.below d (by rw [hstack]; exact hmem)
  rw [hpoint, Function.update_of_ne hdc]
  cases hd : s.point d <;> simp_all [Point.isReturning, Point.isStore, Point.isFetch]

/-- The running coroutine waits, and the one below goes on. -/
theorem Buffered.suspend (hc : Control n first k s) (hstack : s.stack = c :: stack)
    {ch : LuaChannel α} (hstable : Stable ch) : Buffered (yield { s with ch := ch } c p) := by
  refine .of_stable hstable (hc.topGoesOn_pop hstack rfl ?_)
  show s.stack.tail = stack
  rw [hstack]
  rfl

/-- The running coroutine ends, and the one below goes on. -/
theorem Buffered.finish (hb : Buffered s) (hc : Control n first k s) (hstack : s.stack = c :: stack)
    (hpoint : (s.point c).isStore = false ∧ (s.point c).isFetch = false) :
    Buffered (s.finish c) := by
  refine .of_stable (hb.stable (topGoesOn_of_point hstack hpoint))
    (hc.topGoesOn_pop (p := .dead) hstack rfl ?_)
  show s.stack.tail = stack
  rw [hstack]
  rfl

/-- The running coroutine goes on to a point where it does not wait. -/
theorem Buffered.move {ch : LuaChannel α} (hstack : s.stack = c :: stack) (hstable : Stable ch)
    (hp : p.isStore = false ∧ p.isFetch = false) : Buffered { s.setPoint c p with ch := ch } := by
  refine .of_stable hstable (topGoesOn_of_point (c := c) hstack ?_)
  rw [show (s.setPoint c p).point c = p from Function.update_self _ _ _]
  exact hp

/-- A value is handed to a receiver, which goes on. -/
theorem Buffered.handOff (hstable : Stable s.ch) (hc : Control n first k s)
    (hstack : s.stack = c :: stack) {r : Co} {receivers : List Co}
    (hreceivers : s.ch.receivers = r :: receivers) (value : α) :
    Buffered (resume { s.setPoint c p with
      ch := { s.ch with buffer := s.ch.buffer ++ [value], receivers := receivers } } r) := by
  have hmem : r ∈ s.ch.receivers := by rw [hreceivers]; exact List.mem_cons_self
  have hfetch := ((hc.receiver_iff r).mp hmem).2
  have hempty : s.ch.buffer = [] := hstable.empty (List.ne_nil_of_mem hmem)
  have hsenders : s.ch.senders = [] := by
    refine hstable.senders_eq_nil ?_
    rw [hempty]
    exact Nat.eq_zero_or_pos _
  obtain ⟨hresume, -, hsame⟩ := hc.resume_eq hstack (Or.inl hmem) p
    { s.ch with buffer := s.ch.buffer ++ [value], receivers := receivers }
  rw [← hsame] at hfetch
  rw [hresume]
  refine ⟨fun _ => ⟨⟨value, ?_⟩, hsenders⟩, ?_, fun htop => ?_⟩
  · show s.ch.buffer ++ [value] = [value]
    rw [hempty]
    rfl
  · rintro ⟨d, hd, hstore⟩
    cases hd
    have hno : ((s.setPoint c p).point r).isStore = true := hstore
    rw [not_store_of_fetch hfetch] at hno
    cases hno
  · have hno : ((s.setPoint c p).point r).isFetch = false := (htop r rfl).2
    rw [hfetch] at hno
    cases hno

/-- A value is taken out of a full buffer, and a sender goes on. -/
theorem Buffered.wake (hstable : Stable s.ch) (hc : Control n first k s)
    (hstack : s.stack = c :: stack) {r : Co} {senders : List Co}
    (hsenders : s.ch.senders = r :: senders) {value : α} {buffer : List α}
    (hbuffer : s.ch.buffer = value :: buffer) :
    Buffered (resume { s.setPoint c p with
      ch := { s.ch with buffer := buffer, senders := senders } } r) := by
  have hmem : r ∈ s.ch.senders := by rw [hsenders]; exact List.mem_cons_self
  have hstore := ((hc.sender_iff r).mp hmem).2
  obtain ⟨hpos, hfull⟩ := hstable.full (List.ne_nil_of_mem hmem)
  have hreceivers := hstable.receivers_eq_nil (by rw [hbuffer]; exact List.cons_ne_nil _ _)
  obtain ⟨hresume, -, hsame⟩ := hc.resume_eq hstack (Or.inr hmem) p
    { s.ch with buffer := buffer, senders := senders }
  rw [← hsame] at hstore
  rw [hresume]
  refine ⟨?_, fun _ => ⟨?_, hreceivers⟩, fun htop => ?_⟩
  · rintro ⟨d, hd, hfetch⟩
    cases hd
    have hno : ((s.setPoint c p).point r).isFetch = true := hfetch
    rw [not_fetch_of_store hstore] at hno
    cases hno
  · rw [hbuffer] at hfull
    exact hfull
  · have hno : ((s.setPoint c p).point r).isStore = false := (htop r rfl).1
    rw [hstore] at hno
    cases hno

/-- What a step does to the buffer, if `scheduler` resumes none that waits. -/
theorem Buffered.effect (hb : Buffered s) (hc : Control n first k s) (hstarts : s.Starts ())
    (h : Effect s e s') : Buffered s' := by
  -- the running coroutine does not wait
  have hstable : ∀ {c stack}, s.stack = c :: stack →
      (s.point c).isStore = false ∧ (s.point c).isFetch = false → Stable s.ch :=
    fun hstack hpoint => hb.stable (topGoesOn_of_point hstack hpoint)
  cases h with
  | resumed c threads hstack hthreads _ =>
      exact .of_stable (hb.stable (topGoesOn_of_idle hstack))
        (topGoesOn_of_point rfl (hstarts hstack c (by rw [hthreads]; rfl)))
  | dropped c threads hstack _ _ => exact ⟨hb.fetch, hb.store, hb.stable⟩
  | produced c stack hstack hpoint => exact hb.finish hc hstack (by rw [hpoint]; exact ⟨rfl, rfl⟩)
  | consumed c stack hstack hpoint => exact hb.finish hc hstack (by rw [hpoint]; exact ⟨rfl, rfl⟩)
  | broke c stack count hstack hpoint =>
      exact hb.finish hc hstack (by rw [hpoint]; exact ⟨rfl, rfl⟩)
  | handOff c stack value rest r receivers hstack hpoint hreceivers =>
      have hs := hstable hstack (by rw [hpoint]; exact ⟨rfl, rfl⟩)
      exact .handOff hs hc hstack hreceivers value
  | wake c stack count value buffer p senders hstack hpoint hbuffer hsenders =>
      have hs := hstable hstack (by rw [hpoint]; exact ⟨rfl, rfl⟩)
      exact .wake hs hc hstack hsenders hbuffer
  | stored c stack value rest hstack hpoint hreceivers hroom =>
      have hs := hstable hstack (by rw [hpoint]; exact ⟨rfl, rfl⟩)
      refine .move hstack ⟨fun hne => absurd (hs.senders_eq_nil hroom) hne,
        fun hne => absurd hreceivers hne, fun hpos => ?_⟩ ⟨rfl, rfl⟩
      show (s.ch.buffer ++ [value]).length ≤ s.ch.capacity
      rw [List.length_append]
      exact hroom.resolve_left (Nat.ne_of_gt hpos)
  | sendSuspends c stack value rest hstack hpoint hreceivers hroom =>
      have hs := hstable hstack (by rw [hpoint]; exact ⟨rfl, rfl⟩)
      have hpos : 0 < s.ch.capacity := by omega
      have hle := hs.bounded hpos
      refine .suspend hc hstack ⟨fun _ => ⟨hpos, ?_⟩, hs.empty, hs.bounded⟩
      show s.ch.buffer.length = s.ch.capacity
      omega
  | storedLate c stack value rest hstack hpoint =>
      obtain ⟨hlen, hreceivers⟩ := hb.store ⟨c, by rw [hstack]; rfl, by rw [hpoint]; rfl⟩
      have hfull : (s.ch.buffer ++ [value]).length = s.ch.capacity := by
        rw [List.length_append]
        exact hlen
      have hpos : 0 < s.ch.capacity := by omega
      exact .move hstack ⟨fun _ => ⟨hpos, hfull⟩, fun hne => absurd hreceivers hne,
        fun _ => Nat.le_of_eq hfull⟩ ⟨rfl, rfl⟩
  | sendReturned c stack rest hstack hpoint =>
      exact .move hstack (hstable hstack (by rw [hpoint]; exact ⟨rfl, rfl⟩)) ⟨rfl, rfl⟩
  | took c stack count value buffer hstack hpoint hbuffer hsenders =>
      have hs := hstable hstack (by rw [hpoint]; exact ⟨rfl, rfl⟩)
      have hreceivers := hs.receivers_eq_nil (by rw [hbuffer]; exact List.cons_ne_nil _ _)
      refine .move hstack ⟨fun hne => absurd hsenders hne, fun hne => absurd hreceivers hne,
        fun hpos => ?_⟩ ⟨rfl, rfl⟩
      have hle := hs.bounded hpos
      rw [hbuffer] at hle
      exact Nat.le_of_succ_le hle
  | recvSuspends c stack count hstack hpoint hbuffer =>
      have hs := hstable hstack (by rw [hpoint]; exact ⟨rfl, rfl⟩)
      have hsenders : s.ch.senders = [] := by
        refine hs.senders_eq_nil ?_
        rw [hbuffer]
        exact Nat.eq_zero_or_pos _
      exact .suspend hc hstack ⟨fun hne => absurd hsenders hne, fun _ => hbuffer, hs.bounded⟩
  | fetched c stack count value buffer hstack hpoint hbuffer =>
      obtain ⟨⟨v, hv⟩, hsenders⟩ := hb.of_fetch hstack hpoint
      rw [hbuffer, List.cons.injEq] at hv
      exact .move hstack ⟨fun hne => absurd hsenders hne, fun _ => hv.2, fun _ => by
        show buffer.length ≤ _
        rw [hv.2]
        exact Nat.zero_le _⟩ ⟨rfl, rfl⟩
  | fetchedNil c stack count hstack hpoint hbuffer =>
      exact absurd hbuffer (hb.buffer_ne_nil hstack hpoint)
  | recvReturned c stack value count hstack hpoint =>
      exact .move hstack (hstable hstack (by rw [hpoint]; exact ⟨rfl, rfl⟩)) ⟨rfl, rfl⟩

end Step

/-! ## Runs in which no coroutine that waits is resumed -/

/-- Where no `recv` returns `nil`, no coroutine holds one. -/
theorem Moves.noNil {p p' : Point α} (h : Moves p e p') (hp : ∀ count, p ≠ .got none count)
    (he : ∀ c, e ≠ .tookNil c) : e.isNil = false ∧ ∀ count, p' ≠ .got none count := by
  cases h with
  | fetchedNil c count => exact absurd rfl (he c)
  | broke c count => exact absurd rfl (hp count)
  | resumed | dropped => exact ⟨rfl, hp⟩
  | _ => exact ⟨rfl, nofun⟩

variable {capacity : ℕ} {cos : List (Body α)} {h : List (LuaEvent α)}

/-- Every coroutine starts in its loop. -/
theorem isLooping_start {c : Co} (hc : c < cos.length) :
    ((start capacity cos).point c).isLooping = true := by
  show ((cos[c]?.map Body.point).getD .dead).isLooping = true
  rw [List.getElem?_eq_getElem hc]
  show (cos[c].point).isLooping = true
  cases cos[c] <;> rfl

/-- What holds as long as `scheduler` resumes no coroutine that waits, with the first `k`
started. -/
structure Scheduled (capacity : ℕ) (cos : List (Body α)) (k : ℕ) (s : Lua α) : Prop where
  control : Control cos.length (start capacity cos).point k s
  buffered : Buffered s
  noNil : ∀ c count, s.point c ≠ .got none count

/-- At the start nothing is in the buffer. -/
theorem Scheduled.start (capacity : ℕ) (cos : List (Body α)) :
    Scheduled capacity cos 0 (start capacity cos) := by
  refine ⟨.start capacity cos, .of_stable ⟨fun h => absurd rfl h, fun h => absurd rfl h,
    fun _ => Nat.zero_le _⟩ (fun _ h => by cases h), fun c count => ?_⟩
  show (cos[c]?.map Body.point).getD .dead ≠ .got none count
  cases cos[c]? with
  | none => exact nofun
  | some b => cases b <;> exact nofun

/-- A step keeps it so, and starts one more coroutine if any. -/
theorem Scheduled.effect {k : ℕ} (hs : Scheduled capacity cos k s)
    (hf : Fixed capacity cos.length s) (hstarts : s.Starts ()) (heffect : Effect s e s') :
    (∃ k', Scheduled capacity cos k' s' ∧
      (k' = k ∨ k' = k + 1 ∧ s.stack = [] ∧ s'.stack ≠ [])) ∧ e.isNil = false := by
  have hnotNil : ∀ c, e ≠ .tookNil c := by
    rintro c rfl
    cases heffect with
    | fetchedNil _ stack count hstack hpoint hbuffer =>
        exact absurd hbuffer (hs.buffered.buffer_ne_nil hstack hpoint)
  obtain ⟨c, p, hpoint, hmoves⟩ := heffect.moves
  obtain ⟨hnil, hp⟩ := hmoves.noNil (hs.noNil c) hnotNil
  obtain ⟨k', hcontrol, hk'⟩ := hs.control.effect (fun _ => isLooping_start) hf.outside hstarts
    heffect
  refine ⟨⟨k', ⟨hcontrol, hs.buffered.effect hs.control hstarts heffect, fun d count => ?_⟩, hk'⟩,
    hnil⟩
  rw [hpoint]
  by_cases hd : d = c
  · rw [hd, Function.update_self]
    exact hp count
  · rw [Function.update_of_ne hd]
    exact hs.noNil d count

/-- **As long as `scheduler` resumes no coroutine that waits**, the lists and the buffer are right
and no `recv` returns `nil`. -/
theorem run_scheduled (hr : Run step Starts (start capacity cos) h s) :
    (∃ k, Scheduled capacity cos k s) ∧ ∀ e ∈ h, e.isNil = false := by
  induction hr with
  | nil => exact ⟨⟨0, .start capacity cos⟩, List.forall_mem_nil _⟩
  | @snoc h s s' a e hr hok hs ih =>
      obtain ⟨⟨k, hscheduled⟩, hnil⟩ := ih
      have hfixed := run_fixed hr
      obtain ⟨⟨k', hscheduled', -⟩, he⟩ :=
        hscheduled.effect hfixed hok (effect_step hfixed.isOpen hs)
      refine ⟨⟨k', hscheduled'⟩, fun x hx => ?_⟩
      rcases List.mem_append.mp hx with hx | hx
      · exact hnil x hx
      · rw [List.mem_singleton.mp hx]
        exact he

/-- The buffer keeps to its capacity. -/
theorem Buffered.length_le (hb : Buffered s) (hpos : 0 < s.ch.capacity) :
    s.ch.buffer.length ≤ s.ch.capacity := by
  by_cases hfetch : ∃ c ∈ s.stack.head?, (s.point c).isFetch = true
  · obtain ⟨⟨v, hv⟩, -⟩ := hb.fetch hfetch
    rw [hv]
    exact hpos
  · by_cases hstore : ∃ c ∈ s.stack.head?, (s.point c).isStore = true
    · have hlen := (hb.store hstore).1
      omega
    · refine (hb.stable fun c hc => ⟨?_, ?_⟩).bounded hpos
      · exact Bool.eq_false_iff.mpr fun h => hstore ⟨c, hc, h⟩
      · exact Bool.eq_false_iff.mpr fun h => hfetch ⟨c, hc, h⟩

/-- Nothing is left if nothing is left in each. -/
theorem total_eq_zero {n : ℕ} {f : Point α → ℕ} (h : ∀ c, c < n → f (s.point c) = 0) :
    s.total n f = 0 :=
  Finset.sum_eq_zero fun c hc => h c (Finset.mem_range.mp hc)

/-- A part is no more than the total. -/
theorem le_total {n : ℕ} (f : Point α → ℕ) {c : Co} (hc : c < n) : f (s.point c) ≤ s.total n f :=
  Finset.single_le_sum (f := fun c => f (s.point c)) (fun _ _ => Nat.zero_le _)
    (Finset.mem_range.mpr hc)

/-- A coroutine that has been started and is not on the stack has ended or waits. -/
theorem Scheduled.off_stack {k : ℕ} (hs : Scheduled capacity cos k s) {c : Co} (hlt : c < k)
    (hc : c ∉ s.stack) : s.point c = .dead ∨ c ∈ s.ch.senders ∨ c ∈ s.ch.receivers := by
  have hloop := hs.control.started c hlt hc
  have hret := hs.control.not_returning c hc
  rw [hs.control.sender_iff, hs.control.receiver_iff]
  cases hpoint : s.point c with
  | dead => exact Or.inl rfl
  | store value rest => exact Or.inr (Or.inl ⟨hc, rfl⟩)
  | fetch count => exact Or.inr (Or.inr ⟨hc, rfl⟩)
  | produce | consume =>
      rw [hpoint] at hloop
      cases hloop
  | sent | got =>
      rw [hpoint] at hret
      cases hret

/-- While no coroutine runs and no sender waits, all that those who have been started were to send
has been sent. -/
theorem Scheduled.values_eq_zero {k : ℕ} (hs : Scheduled capacity cos k s) (hstack : s.stack = [])
    (hsenders : s.ch.senders = []) : s.total k Point.values = 0 := by
  refine total_eq_zero fun d hd => ?_
  rcases hs.off_stack hd (by rw [hstack]; exact List.not_mem_nil) with h | h | h
  · rw [h]
    rfl
  · rw [hsenders] at h
    cases h
  · have hfetch := ((hs.control.receiver_iff d).mp h).2
    cases hpoint : s.point d <;> simp_all [Point.isFetch, Point.values]

/-- While no coroutine runs and no receiver waits, all that those who have been started were to
receive has been received. -/
theorem Scheduled.counts_eq_zero {k : ℕ} (hs : Scheduled capacity cos k s) (hstack : s.stack = [])
    (hreceivers : s.ch.receivers = []) : s.total k Point.counts = 0 := by
  refine total_eq_zero fun d hd => ?_
  rcases hs.off_stack hd (by rw [hstack]; exact List.not_mem_nil) with h | h | h
  · rw [h]
    rfl
  · have hstore := ((hs.control.sender_iff d).mp h).2
    cases hpoint : s.point d <;> simp_all [Point.isStore, Point.counts]
  · rw [hreceivers] at h
    cases h

/-- When the coroutine whose turn it is waits, all coroutines have been started. -/
theorem Scheduled.head_waits {k : ℕ} (hs : Scheduled capacity cos k s)
    (hstarts : ¬ s.Starts ()) :
    s.stack = [] ∧ k = cos.length ∧
      ∃ c threads, s.threads = c :: threads ∧
        ((s.point c).isStore = true ∨ (s.point c).isFetch = true) := by
  obtain ⟨hstack, c, hhead, hwaits⟩ : s.stack = [] ∧ ∃ c ∈ s.threads.head?,
      ((s.point c).isStore = true ∨ (s.point c).isFetch = true) := by
    by_contra hno
    refine hstarts fun hstack c hc => ?_
    constructor
    · exact Bool.eq_false_iff.mpr fun h => hno ⟨hstack, c, hc, Or.inl h⟩
    · exact Bool.eq_false_iff.mpr fun h => hno ⟨hstack, c, hc, Or.inr h⟩
  obtain ⟨threads, hthreads⟩ := List.head?_eq_some_iff.mp hhead
  rcases hs.control.head_cases hstack hthreads with ⟨hlt, rfl, -⟩ | ⟨heq, -⟩
  · -- the next one to be started is in its loop
    have hloop : ((Lua.start capacity cos).point c).isLooping = true := isLooping_start hlt
    rw [← (hs.control.unstarted c (Nat.le_refl _) hlt).2,
      (Control.isDead_of_waiting hwaits).2.1] at hloop
    cases hloop
  · exact ⟨hstack, heq, c, threads, hthreads, hwaits⟩

end Lua

end Csp
