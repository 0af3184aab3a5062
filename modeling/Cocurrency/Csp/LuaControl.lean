/-
# Where the coroutines are (`lua/csp/channel.lua`)

As long as `scheduler` resumes no coroutine that waits in `send` or `recv`, the waiting lists hold
exactly the coroutines that wait, each once, and every other coroutine that is not dead is on the
stack or in the list of `scheduler`.  `Control.effect` : a step keeps it so.
-/
import Cocurrency.Csp.LuaChannel
import Mathlib.Data.List.Nodup

namespace Csp

namespace Lua

variable {α : Type*} {s s' : Lua α} {e : LuaEvent α}

/-- `scheduler` does not resume a coroutine that waits in `send` or `recv`. -/
def Starts (s : Lua α) (_ : Unit) : Prop :=
  s.stack = [] → ∀ c ∈ s.threads.head?,
    (s.point c).isStore = false ∧ (s.point c).isFetch = false

/-! ## Control -/

/-- Where the coroutines are, when the first `k` of the `n` given to `scheduler` have been
started.  Those that have not are at `first`. -/
structure Control (n : ℕ) (first : Co → Point α) (k : ℕ) (s : Lua α) : Prop where
  le : k ≤ n
  stack_nodup : s.stack.Nodup
  alive : ∀ c ∈ s.stack, (s.point c).isDead = false
  below : ∀ c ∈ s.stack.tail, (s.point c).isReturning = true
  not_returning : ∀ c, c ∉ s.stack → (s.point c).isReturning = false
  sender_iff : ∀ c, c ∈ s.ch.senders ↔ c ∉ s.stack ∧ (s.point c).isStore = true
  receiver_iff : ∀ c, c ∈ s.ch.receivers ↔ c ∉ s.stack ∧ (s.point c).isFetch = true
  senders_nodup : s.ch.senders.Nodup
  receivers_nodup : s.ch.receivers.Nodup
  threads_eq : ∃ rest, s.threads = (List.range n).drop k ++ rest
  unstarted : ∀ c, k ≤ c → c < n → c ∉ s.stack ∧ s.point c = first c
  started : ∀ c, c < k → c ∉ s.stack → (s.point c).isLooping = false
  reach : ∀ c, (s.point c).isDead = false → c ∈ s.threads ∨ s.stack.getLast? = some c

namespace Control

variable {n k : ℕ} {first : Co → Point α} {c : Co} {stack : List Co} {p : Point α}

/-- The running coroutine is not among those that wait for it to return. -/
theorem ne_of_below (hc : Control n first k s) (hstack : s.stack = c :: stack) {d : Co}
    (hd : d ∈ stack) : d ≠ c := by
  have hnodup := hc.stack_nodup
  rw [hstack] at hnodup
  exact fun heq => (List.nodup_cons.mp hnodup).1 (heq ▸ hd)

/-- The running coroutine goes on, and nothing else changes but the buffer. -/
theorem move (hc : Control n first k s) (hstack : s.stack = c :: stack) (hp : p.isDead = false)
    (hpoint : s'.point = Function.update s.point c p) (hstack' : s'.stack = s.stack)
    (hthreads : s'.threads = s.threads) (hsenders : s'.ch.senders = s.ch.senders)
    (hreceivers : s'.ch.receivers = s.ch.receivers) : Control n first k s' := by
  have hmem : c ∈ s.stack := by rw [hstack]; exact List.mem_cons_self
  have hself : s'.point c = p := by rw [hpoint, Function.update_self]
  have hother : ∀ d, d ≠ c → s'.point d = s.point d := fun d hd => by
    rw [hpoint, Function.update_of_ne hd]
  -- what is not on the stack has not moved
  have hoff : ∀ d, d ∉ s.stack → s'.point d = s.point d := fun d hd =>
    hother d fun h => hd (h ▸ hmem)
  constructor
  · exact hc.le
  · rw [hstack']
    exact hc.stack_nodup
  · rw [hstack']
    intro d hd
    by_cases hdc : d = c
    · rw [hdc, hself]
      exact hp
    · rw [hother d hdc]
      exact hc.alive d hd
  · rw [hstack']
    intro d hd
    rw [hstack, List.tail_cons] at hd
    rw [hother d (hc.ne_of_below hstack hd)]
    exact hc.below d (by rw [hstack]; exact hd)
  · rw [hstack']
    intro d hd
    rw [hoff d hd]
    exact hc.not_returning d hd
  · rw [hstack', hsenders]
    intro d
    rw [hc.sender_iff]
    exact and_congr_right fun hd => by rw [hoff d hd]
  · rw [hstack', hreceivers]
    intro d
    rw [hc.receiver_iff]
    exact and_congr_right fun hd => by rw [hoff d hd]
  · rw [hsenders]
    exact hc.senders_nodup
  · rw [hreceivers]
    exact hc.receivers_nodup
  · rw [hthreads]
    exact hc.threads_eq
  · rw [hstack']
    intro d hk hn
    obtain ⟨hd, hfirst⟩ := hc.unstarted d hk hn
    exact ⟨hd, (hoff d hd).trans hfirst⟩
  · rw [hstack']
    intro d hk hd
    rw [hoff d hd]
    exact hc.started d hk hd
  · rw [hstack', hthreads]
    intro d hd
    by_cases hdc : d = c
    · exact hc.reach d (by rw [hdc]; exact hc.alive c hmem)
    · rw [hother d hdc] at hd
      exact hc.reach d hd

/-- A coroutine that waits is not dead, not in its loop and not about to return. -/
theorem isDead_of_waiting (h : p.isStore = true ∨ p.isFetch = true) :
    p.isDead = false ∧ p.isLooping = false ∧ p.isReturning = false := by
  cases p <;> simp_all [Point.isStore, Point.isFetch, Point.isDead, Point.isLooping,
    Point.isReturning]

/-- The running coroutine is about to return, and resumes a coroutine `r` that waits and has been
taken out of its list. -/
theorem push (hc : Control n first k s) (hfirst : ∀ c, c < n → (first c).isLooping = true)
    (hstack : s.stack = c :: stack) (hret : (s.point c).isReturning = true) {r : Co}
    (hr : r ∉ s.stack) (hwaits : (s.point r).isStore = true ∨ (s.point r).isFetch = true)
    (hpoint : s'.point = s.point) (hstack' : s'.stack = r :: s.stack)
    (hthreads : s'.threads = s.threads)
    (hsenders : ∀ d, d ∈ s'.ch.senders ↔ d ∈ s.ch.senders ∧ d ≠ r)
    (hreceivers : ∀ d, d ∈ s'.ch.receivers ↔ d ∈ s.ch.receivers ∧ d ≠ r)
    (hnodup : s'.ch.senders.Nodup ∧ s'.ch.receivers.Nodup) : Control n first k s' := by
  obtain ⟨hdead, hloop, -⟩ := isDead_of_waiting hwaits
  have hoff : ∀ (q : Prop) d, (d ∉ s.stack ∧ q) ∧ d ≠ r ↔ d ∉ s'.stack ∧ q := by
    intro q d
    rw [hstack', List.mem_cons]
    tauto
  constructor
  · exact hc.le
  · rw [hstack', List.nodup_cons]
    exact ⟨hr, hc.stack_nodup⟩
  · rw [hstack', hpoint]
    exact List.forall_mem_cons.mpr ⟨hdead, hc.alive⟩
  · rw [hstack', hpoint, List.tail_cons, hstack]
    refine List.forall_mem_cons.mpr ⟨hret, fun d hd => hc.below d ?_⟩
    rw [hstack]
    exact hd
  · rw [hpoint, hstack']
    intro d hd
    exact hc.not_returning d fun h => hd (List.mem_cons_of_mem _ h)
  · intro d
    rw [hsenders, hc.sender_iff, hpoint]
    exact hoff _ d
  · intro d
    rw [hreceivers, hc.receiver_iff, hpoint]
    exact hoff _ d
  · exact hnodup.1
  · exact hnodup.2
  · rw [hthreads]
    exact hc.threads_eq
  · rw [hpoint, hstack']
    intro d hk hn
    obtain ⟨hd, heq⟩ := hc.unstarted d hk hn
    refine ⟨fun hmem => ?_, heq⟩
    rcases List.mem_cons.mp hmem with rfl | hmem
    · -- a coroutine that waits has been started
      rw [heq, hfirst d hn] at hloop
      cases hloop
    · exact hd hmem
  · rw [hpoint, hstack']
    intro d hk hd
    exact hc.started d hk fun h => hd (List.mem_cons_of_mem _ h)
  · rw [hpoint, hthreads, hstack']
    intro d hd
    rcases hc.reach d hd with h | h
    · exact Or.inl h
    · refine Or.inr ?_
      rw [hstack] at h ⊢
      rw [List.getLast?_cons_cons]
      exact h

/-- A waiting list holds those off the stack that are at a point of a kind.  It does so again when
`c` leaves the stack for `p`, if it has been put into the list in case `p` is of that kind. -/
theorem mem_iff_of_pop {kind : Point α → Bool} {l l' : List Co} (hnot : c ∉ stack)
    (hl : ∀ d, d ∈ l ↔ d ∉ c :: stack ∧ kind (s.point d) = true)
    (hl' : ∀ d, d ∈ l' ↔ d ∈ l ∨ d = c ∧ kind p = true) (d : Co) :
    d ∈ l' ↔ d ∉ stack ∧ kind (Function.update s.point c p d) = true := by
  rw [hl', hl, List.mem_cons]
  by_cases hdc : d = c
  · rw [hdc, Function.update_self]
    simp [hnot]
  · rw [Function.update_of_ne hdc]
    simp [hdc]

/-- Whoever is not dead is still in `threads` or at the bottom of the stack when `c` has left it. -/
theorem reach_of_pop (hc : Control n first k s) (hstack : s.stack = c :: stack) (hnot : c ∉ stack)
    {threads : List Co}
    (hthreads : threads = if stack = [] ∧ p.isDead = false then s.threads ++ [c] else s.threads)
    {d : Co} (hd : (Function.update s.point c p d).isDead = false) :
    d ∈ threads ∨ stack.getLast? = some d := by
  rw [hthreads]
  by_cases hdc : d = c
  · rw [hdc] at hd ⊢
    rw [Function.update_self] at hd
    by_cases hbottom : stack = []
    · rw [if_pos ⟨hbottom, hd⟩]
      exact Or.inl (List.mem_append_right _ (List.mem_singleton_self c))
    · rw [if_neg fun h => hbottom h.1]
      rcases hc.reach c (hc.alive c (by rw [hstack]; exact List.mem_cons_self)) with h | h
      · exact Or.inl h
      · -- `c` is not at the bottom of the stack
        obtain ⟨x, l, rfl⟩ := List.exists_cons_of_ne_nil hbottom
        rw [hstack, List.getLast?_cons_cons] at h
        exact absurd (List.mem_of_getLast? h) hnot
  · rw [Function.update_of_ne hdc] at hd
    rcases hc.reach d hd with h | h
    · left
      split_ifs
      · exact List.mem_append_left _ h
      · exact h
    · rw [hstack] at h
      cases stack with
      | nil => exact absurd (Option.some.inj h).symm hdc
      | cons x l =>
          rw [List.getLast?_cons_cons] at h
          exact Or.inr h

/-- The running coroutine leaves the stack: it waits at `p` in one of the lists, or it is dead. -/
theorem pop (hc : Control n first k s) (hstack : s.stack = c :: stack)
    (hret : p.isReturning = false) (hloop : p.isLooping = false)
    (hpoint : s'.point = Function.update s.point c p) (hstack' : s'.stack = stack)
    (hthreads : s'.threads =
      if stack = [] ∧ p.isDead = false then s.threads ++ [c] else s.threads)
    (hsenders : ∀ d, d ∈ s'.ch.senders ↔ d ∈ s.ch.senders ∨ d = c ∧ p.isStore = true)
    (hreceivers : ∀ d, d ∈ s'.ch.receivers ↔ d ∈ s.ch.receivers ∨ d = c ∧ p.isFetch = true)
    (hnodup : s'.ch.senders.Nodup ∧ s'.ch.receivers.Nodup) : Control n first k s' := by
  have hself : s'.point c = p := by rw [hpoint, Function.update_self]
  have hother : ∀ d, d ≠ c → s'.point d = s.point d := fun d hd => by
    rw [hpoint, Function.update_of_ne hd]
  obtain ⟨hnot, hstack_nodup⟩ : c ∉ stack ∧ stack.Nodup := by
    have h := hc.stack_nodup
    rw [hstack] at h
    exact List.nodup_cons.mp h
  have hmem : ∀ d, d ∈ s.stack ↔ d = c ∨ d ∈ stack := fun d => by rw [hstack, List.mem_cons]
  have hne : ∀ d, d ∈ stack → d ≠ c := fun _ hd => hc.ne_of_below hstack hd
  constructor
  · exact hc.le
  · rw [hstack']
    exact hstack_nodup
  · rw [hstack']
    intro d hd
    rw [hother d (hne d hd)]
    exact hc.alive d ((hmem d).mpr (Or.inr hd))
  · rw [hstack']
    intro d hd
    have hd' := List.mem_of_mem_tail hd
    rw [hother d (hne d hd')]
    exact hc.below d (by rw [hstack]; exact hd')
  · rw [hstack']
    intro d hd
    by_cases hdc : d = c
    · rw [hdc, hself]
      exact hret
    · rw [hother d hdc]
      exact hc.not_returning d fun h => ((hmem d).mp h).elim hdc hd
  · rw [hstack', hpoint]
    refine mem_iff_of_pop hnot (fun d => ?_) hsenders
    rw [← hstack]
    exact hc.sender_iff d
  · rw [hstack', hpoint]
    refine mem_iff_of_pop hnot (fun d => ?_) hreceivers
    rw [← hstack]
    exact hc.receiver_iff d
  · exact hnodup.1
  · exact hnodup.2
  · obtain ⟨rest, hrest⟩ := hc.threads_eq
    rw [hthreads]
    split_ifs
    · exact ⟨rest ++ [c], by rw [hrest, List.append_assoc]⟩
    · exact ⟨rest, hrest⟩
  · rw [hstack']
    intro d hk hn
    obtain ⟨hd, heq⟩ := hc.unstarted d hk hn
    rw [hmem] at hd
    exact ⟨fun h => hd (Or.inr h), (hother d fun h => hd (Or.inl h)).trans heq⟩
  · rw [hstack']
    intro d hk hd
    by_cases hdc : d = c
    · rw [hdc, hself]
      exact hloop
    · rw [hother d hdc]
      exact hc.started d hk fun h => ((hmem d).mp h).elim hdc hd
  · rw [hstack', hpoint]
    exact fun d hd => hc.reach_of_pop hstack hnot hthreads hd

/-- When a coroutine that has not ended and does not wait is at the head of `threads`, it is the
next one to be started; and when it does wait, or is dead, all have been started. -/
theorem head_cases (hc : Control n first k s) (hstack : s.stack = []) {threads : List Co}
    (hthreads : s.threads = c :: threads) :
    (k < n ∧ c = k ∧ ∃ rest, threads = (List.range n).drop (k + 1) ++ rest) ∨
      (k = n ∧ c ∈ s.threads ∧ ((s.point c).isLooping = true → n ≤ c)) := by
  obtain ⟨rest, hrest⟩ := hc.threads_eq
  rcases Nat.lt_or_ge k n with hlt | hge
  · left
    have hdrop : (List.range n).drop k = k :: (List.range n).drop (k + 1) := by
      rw [List.drop_eq_getElem_cons (by rw [List.length_range]; exact hlt), List.getElem_range]
    rw [hthreads, hdrop, List.cons_append, List.cons.injEq] at hrest
    exact ⟨hlt, hrest.1, rest, hrest.2⟩
  · right
    have hle := hc.le
    refine ⟨by omega, by rw [hthreads]; exact List.mem_cons_self, fun hloop => ?_⟩
    by_contra hlt
    have hnot : c ∉ s.stack := by rw [hstack]; exact List.not_mem_nil
    rw [hc.started c (by omega) hnot] at hloop
    cases hloop

/-- `scheduler` starts the next coroutine. -/
theorem resumed (hc : Control n first k s) (hout : ∀ c, n ≤ c → s.point c = .dead)
    (hstack : s.stack = []) {threads : List Co} (hthreads : s.threads = c :: threads)
    (hdead : (s.point c).isDead = false) (hstarts : s.Starts ()) :
    k < n ∧ Control n first (k + 1) { s with stack := [c], threads := threads } := by
  have hnot : ∀ d, d ∉ s.stack := fun d => by rw [hstack]; exact List.not_mem_nil
  -- it neither waits nor returns, so it is in its loop
  have hloop : (s.point c).isLooping = true := by
    obtain ⟨hstore, hfetch⟩ := hstarts hstack c (by rw [hthreads]; rfl)
    have hret := hc.not_returning c (hnot c)
    cases hpoint : s.point c <;> simp_all [Point.isStore, Point.isFetch, Point.isReturning,
      Point.isDead, Point.isLooping]
  rcases hc.head_cases hstack hthreads with ⟨hlt, rfl, rest, hrest⟩ | ⟨-, -, hge⟩
  · refine ⟨hlt, ?_⟩
    have hoff : ∀ (q : Co → Bool) d, (q d = true → d ≠ c) →
        (d ∉ s.stack ∧ q d = true ↔ d ∉ [c] ∧ q d = true) := by
      intro q d hq
      rw [List.mem_singleton]
      exact ⟨fun h => ⟨hq h.2, h.2⟩, fun h => ⟨hnot d, h.2⟩⟩
    constructor
    · exact hlt
    · exact List.nodup_singleton c
    · exact fun d hd => by rw [List.mem_singleton.mp hd]; exact hdead
    · exact fun d hd => absurd hd List.not_mem_nil
    · exact fun d _ => hc.not_returning d (hnot d)
    · intro d
      rw [hc.sender_iff]
      refine hoff (fun d => (s.point d).isStore) d fun hq => ?_
      rintro rfl
      rw [(hstarts hstack d (by rw [hthreads]; rfl)).1] at hq
      cases hq
    · intro d
      rw [hc.receiver_iff]
      refine hoff (fun d => (s.point d).isFetch) d fun hq => ?_
      rintro rfl
      rw [(hstarts hstack d (by rw [hthreads]; rfl)).2] at hq
      cases hq
    · exact hc.senders_nodup
    · exact hc.receivers_nodup
    · exact ⟨rest, hrest⟩
    · intro d hk hn
      refine ⟨fun hd => ?_, (hc.unstarted d (by omega) hn).2⟩
      rw [List.mem_singleton.mp hd] at hk
      omega
    · intro d hk hd
      rcases Nat.lt_succ_iff_lt_or_eq.mp hk with hk | rfl
      · exact hc.started d hk (hnot d)
      · exact absurd (List.mem_singleton_self d) hd
    · intro d hd
      rcases hc.reach d hd with h | h
      · rw [hthreads] at h
        rcases List.mem_cons.mp h with rfl | h
        · exact Or.inr rfl
        · exact Or.inl h
      · rw [hstack] at h
        cases h
  · rw [hout c (hge hloop)] at hdead
    cases hdead

/-- `scheduler` drops a dead coroutine. -/
theorem dropped (hc : Control n first k s) (hfirst : ∀ c, c < n → (first c).isLooping = true)
    (hstack : s.stack = []) {threads : List Co} (hthreads : s.threads = c :: threads)
    (hdead : (s.point c).isDead = true) :
    Control n first k { s with threads := threads } := by
  rcases hc.head_cases hstack hthreads with ⟨hlt, rfl, -⟩ | ⟨heq, -⟩
  · -- the next one to be started is not dead
    have hloop := hfirst c hlt
    rw [← (hc.unstarted c (Nat.le_refl _) hlt).2] at hloop
    cases hpoint : s.point c <;> simp_all [Point.isDead, Point.isLooping]
  · refine ⟨hc.le, hc.stack_nodup, hc.alive, hc.below, hc.not_returning, hc.sender_iff,
      hc.receiver_iff, hc.senders_nodup, hc.receivers_nodup, ⟨threads, ?_⟩, hc.unstarted,
      hc.started, fun d hd => ?_⟩
    · rw [heq, List.drop_of_length_le (Nat.le_of_eq List.length_range)]
      rfl
    · rcases hc.reach d hd with h | h
      · rw [hthreads] at h
        rcases List.mem_cons.mp h with rfl | h
        · rw [hdead] at hd
          cases hd
        · exact Or.inl h
      · exact Or.inr h

/-- At the start no coroutine has been started. -/
theorem start (capacity : ℕ) (cos : List (Body α)) :
    Control cos.length (Lua.start capacity cos).point 0 (Lua.start capacity cos) := by
  have hpoint : ∀ c, (∃ b : Body α, (Lua.start capacity cos).point c = b.point) ∨
      (Lua.start capacity cos).point c = .dead := by
    intro c
    show (∃ b : Body α, (cos[c]?.map Body.point).getD .dead = b.point) ∨
      (cos[c]?.map Body.point).getD .dead = .dead
    cases cos[c]? with
    | none => exact Or.inr rfl
    | some b => exact Or.inl ⟨b, rfl⟩
  have hflags : ∀ c, ((Lua.start capacity cos).point c).isReturning = false ∧
      ((Lua.start capacity cos).point c).isStore = false ∧
      ((Lua.start capacity cos).point c).isFetch = false := by
    intro c
    rcases hpoint c with ⟨b, hb⟩ | hb
    · rw [hb]
      cases b <;> exact ⟨rfl, rfl, rfl⟩
    · rw [hb]
      exact ⟨rfl, rfl, rfl⟩
  refine ⟨Nat.zero_le _, List.nodup_nil, fun _ h => absurd h List.not_mem_nil,
    fun _ h => absurd h List.not_mem_nil, fun c _ => (hflags c).1, fun c => ?_, fun c => ?_,
    List.nodup_nil, List.nodup_nil, ⟨[], (List.append_nil _).symm⟩,
    fun c _ _ => ⟨List.not_mem_nil, rfl⟩, fun c hc => absurd hc (Nat.not_lt_zero c), fun c hc => ?_⟩
  · rw [(hflags c).2.1]
    exact iff_of_false List.not_mem_nil (fun h => Bool.false_ne_true h.2)
  · rw [(hflags c).2.2]
    exact iff_of_false List.not_mem_nil (fun h => Bool.false_ne_true h.2)
  · left
    show c ∈ List.range cos.length
    rw [List.mem_range]
    by_contra hge
    rw [(Fixed.start capacity cos).outside c (Nat.le_of_not_lt hge)] at hc
    cases hc

end Control

/-- A coroutine that waits, and is not on the stack, is resumed. -/
theorem resume_of_waiting {r : Co} (hr : r ∉ s.stack) (hdead : (s.point r).isDead = false) :
    s.resume r = { s with stack := r :: s.stack } := by
  rw [resume, if_neg]
  rintro (h | h)
  · exact hr h
  · rw [hdead] at h
    cases h

/-- The rest of a list without its head, which is there once. -/
theorem mem_tail_iff {r d : Co} {l : List Co} (h : (r :: l).Nodup) :
    d ∈ l ↔ d ∈ r :: l ∧ d ≠ r := by
  rw [List.mem_cons]
  constructor
  · exact fun hd => ⟨Or.inr hd, fun heq => (List.nodup_cons.mp h).1 (heq ▸ hd)⟩
  · rintro ⟨rfl | hd, hne⟩
    · exact absurd rfl hne
    · exact hd

section Step

variable {n k : ℕ} {first : Co → Point α} {c : Co} {stack : List Co} {p : Point α}

/-- A list from which nothing is taken. -/
theorem mem_iff_of_not_mem {r d : Co} {l : List Co} (h : r ∉ l) : d ∈ l ↔ d ∈ l ∧ d ≠ r :=
  ⟨fun hd => ⟨hd, fun heq => h (heq ▸ hd)⟩, And.left⟩

/-- The running coroutine goes on. -/
theorem Control.setPoint (hc : Control n first k s) (hstack : s.stack = c :: stack)
    (hp : p.isDead = false) : Control n first k (s.setPoint c p) :=
  hc.move hstack hp rfl rfl rfl rfl rfl

/-- The running coroutine ends. -/
theorem Control.finish (hc : Control n first k s) (hstack : s.stack = c :: stack) :
    Control n first k (s.finish c) := by
  refine hc.pop (p := .dead) hstack rfl rfl rfl ?_ ?_ (fun d => ?_) (fun d => ?_)
    ⟨hc.senders_nodup, hc.receivers_nodup⟩
  · show s.stack.tail = stack
    rw [hstack]
    rfl
  · rw [if_neg fun h => Bool.noConfusion h.2]
    rfl
  · exact ⟨Or.inl, fun h => h.resolve_right fun h => Bool.noConfusion h.2⟩
  · exact ⟨Or.inl, fun h => h.resolve_right fun h => Bool.noConfusion h.2⟩

/-- A coroutine out of one of the waiting lists is resumed by the running one. -/
theorem Control.resume_eq (hc : Control n first k s) (hstack : s.stack = c :: stack) {r : Co}
    (hr : r ∈ s.ch.receivers ∨ r ∈ s.ch.senders) (p : Point α) (ch : LuaChannel α) :
    resume { s.setPoint c p with ch := ch } r =
        { s.setPoint c p with ch := ch, stack := r :: s.stack } ∧
      r ∉ s.stack ∧ (s.setPoint c p).point r = s.point r := by
  have hwaits : r ∉ s.stack ∧ ((s.point r).isStore = true ∨ (s.point r).isFetch = true) := by
    rcases hr with hr | hr
    · exact ((hc.receiver_iff r).mp hr).imp_right Or.inr
    · exact ((hc.sender_iff r).mp hr).imp_right Or.inl
  have hrc : r ≠ c := by
    rintro rfl
    exact hwaits.1 (by rw [hstack]; exact List.mem_cons_self)
  have hpoint : (s.setPoint c p).point r = s.point r := Function.update_of_ne hrc _ _
  refine ⟨resume_of_waiting (s := { s.setPoint c p with ch := ch }) hwaits.1 ?_, hwaits.1, hpoint⟩
  show ((s.setPoint c p).point r).isDead = false
  rw [hpoint]
  exact (Control.isDead_of_waiting hwaits.2).1

/-- A coroutine that waits in `recv` does not wait in `send`. -/
theorem not_store_of_fetch (h : p.isFetch = true) : p.isStore = false := by
  cases p <;> simp_all [Point.isStore, Point.isFetch]

/-- A coroutine that waits in `send` does not wait in `recv`. -/
theorem not_fetch_of_store (h : p.isStore = true) : p.isFetch = false := by
  cases p <;> simp_all [Point.isStore, Point.isFetch]

/-- No coroutine waits in both lists. -/
theorem Control.not_sender (hc : Control n first k s) {r : Co} (hr : r ∈ s.ch.receivers) :
    r ∉ s.ch.senders := by
  intro hmem
  have hstore := ((hc.sender_iff r).mp hmem).2
  rw [not_store_of_fetch ((hc.receiver_iff r).mp hr).2] at hstore
  cases hstore

/-- In sending, `c` hands its value to the first receiver; in receiving, it wakes the first sender.
Either way `c` is about to return, at `p`, and the other is resumed. -/
theorem Control.handOff (hc : Control n first k s)
    (hfirst : ∀ c, c < n → (first c).isLooping = true) (hstack : s.stack = c :: stack)
    (hp : p.isReturning = true) {r : Co} {ch : LuaChannel α}
    (hlists : s.ch.receivers = r :: ch.receivers ∧ ch.senders = s.ch.senders ∨
      s.ch.senders = r :: ch.senders ∧ ch.receivers = s.ch.receivers) :
    Control n first k (resume { s.setPoint c p with ch := ch } r) := by
  have hr : r ∈ s.ch.receivers ∨ r ∈ s.ch.senders := by
    refine hlists.imp (fun h => ?_) (fun h => ?_)
    · rw [h.1]
      exact List.mem_cons_self
    · rw [h.1]
      exact List.mem_cons_self
  obtain ⟨hresume, hnot, hpoint⟩ := hc.resume_eq hstack hr p ch
  have hs := hc.setPoint hstack (p := p) (by cases p <;> simp_all [Point.isReturning, Point.isDead])
  have hself : ((s.setPoint c p).point c).isReturning = true := by
    rw [show (s.setPoint c p).point c = p from Function.update_self _ _ _]
    exact hp
  have hreceivers := hc.receivers_nodup
  have hsenders := hc.senders_nodup
  rw [hresume]
  rcases hlists with ⟨hlist, hsame⟩ | ⟨hlist, hsame⟩
  · have hmem : r ∈ s.ch.receivers := by rw [hlist]; exact List.mem_cons_self
    have hfetch := ((hc.receiver_iff r).mp hmem).2
    rw [hlist] at hreceivers
    refine hs.push hfirst hstack hself hnot (Or.inr (by rw [hpoint]; exact hfetch)) rfl rfl rfl
      (fun d => ?_) (fun d => ?_)
      ⟨by rw [hsame]; exact hsenders, (List.nodup_cons.mp hreceivers).2⟩
    · show d ∈ ch.senders ↔ d ∈ s.ch.senders ∧ d ≠ r
      rw [hsame]
      exact mem_iff_of_not_mem (hc.not_sender hmem)
    · show d ∈ ch.receivers ↔ d ∈ s.ch.receivers ∧ d ≠ r
      rw [hlist]
      exact mem_tail_iff hreceivers
  · have hmem : r ∈ s.ch.senders := by rw [hlist]; exact List.mem_cons_self
    have hstore := ((hc.sender_iff r).mp hmem).2
    rw [hlist] at hsenders
    refine hs.push hfirst hstack hself hnot (Or.inl (by rw [hpoint]; exact hstore)) rfl rfl rfl
      (fun d => ?_) (fun d => ?_)
      ⟨(List.nodup_cons.mp hsenders).2, by rw [hsame]; exact hreceivers⟩
    · show d ∈ ch.senders ↔ d ∈ s.ch.senders ∧ d ≠ r
      rw [hlist]
      exact mem_tail_iff hsenders
    · show d ∈ ch.receivers ↔ d ∈ s.ch.receivers ∧ d ≠ r
      rw [hsame]
      exact mem_iff_of_not_mem fun h => hc.not_sender h hmem

/-- The running coroutine puts itself into a list and waits. -/
theorem Control.suspend (hc : Control n first k s) (hstack : s.stack = c :: stack)
    {ch : LuaChannel α}
    (hlists : (ch.senders = s.ch.senders ++ [c] ∧ ch.receivers = s.ch.receivers ∧
        p.isStore = true) ∨
      (ch.receivers = s.ch.receivers ++ [c] ∧ ch.senders = s.ch.senders ∧ p.isFetch = true)) :
    Control n first k (yield { s with ch := ch } c p) := by
  obtain ⟨hdead, hloop, hret⟩ :=
    Control.isDead_of_waiting (hlists.imp (fun h => h.2.2) (fun h => h.2.2))
  have hmem : c ∈ s.stack := by rw [hstack]; exact List.mem_cons_self
  have hns : c ∉ s.ch.senders := fun h => ((hc.sender_iff c).mp h).1 hmem
  have hnr : c ∉ s.ch.receivers := fun h => ((hc.receiver_iff c).mp h).1 hmem
  have hsnoc : ∀ {l : List Co}, l.Nodup → c ∉ l → (l ++ [c]).Nodup := by
    intro l hl hc
    rw [List.nodup_append]
    refine ⟨hl, List.nodup_singleton c, fun a ha b hb => ?_⟩
    rw [List.mem_singleton.mp hb]
    rintro rfl
    exact hc ha
  refine hc.pop hstack hret hloop rfl ?_ ?_ (fun d => ?_) (fun d => ?_) ?_
  · show s.stack.tail = stack
    rw [hstack]
    rfl
  · show (if s.stack.tail = [] then s.threads ++ [c] else s.threads) = _
    rw [hstack, List.tail_cons, hdead]
    simp
  · show d ∈ ch.senders ↔ _
    rcases hlists with ⟨hs, -, hp⟩ | ⟨-, hs, hp⟩
    · rw [hs, List.mem_append, List.mem_singleton, hp]
      simp
    · rw [hs, not_store_of_fetch hp]
      simp
  · show d ∈ ch.receivers ↔ _
    rcases hlists with ⟨-, hs, hp⟩ | ⟨hs, -, hp⟩
    · rw [hs, not_fetch_of_store hp]
      simp
    · rw [hs, List.mem_append, List.mem_singleton, hp]
      simp
  · show ch.senders.Nodup ∧ ch.receivers.Nodup
    rcases hlists with ⟨hs, hr, -⟩ | ⟨hr, hs, -⟩
    · rw [hs, hr]
      exact ⟨hsnoc hc.senders_nodup hns, hc.receivers_nodup⟩
    · rw [hs, hr]
      exact ⟨hc.senders_nodup, hsnoc hc.receivers_nodup hnr⟩

/-- What a step does to the control, if `scheduler` resumes none that waits. -/
theorem Control.effect (hc : Control n first k s)
    (hfirst : ∀ c, c < n → (first c).isLooping = true) (hout : ∀ c, n ≤ c → s.point c = .dead)
    (hstarts : s.Starts ()) (h : Effect s e s') :
    ∃ k', Control n first k' s' ∧ (k' = k ∨ k' = k + 1 ∧ s.stack = [] ∧ s'.stack ≠ []) := by
  cases h with
  | resumed c threads hstack hthreads hdead =>
      exact ⟨k + 1, (hc.resumed hout hstack hthreads hdead hstarts).2,
        Or.inr ⟨rfl, hstack, List.cons_ne_nil _ _⟩⟩
  | dropped c threads hstack hthreads hdead =>
      exact ⟨k, hc.dropped hfirst hstack hthreads hdead, Or.inl rfl⟩
  | produced c stack hstack _ => exact ⟨k, hc.finish hstack, Or.inl rfl⟩
  | consumed c stack hstack _ => exact ⟨k, hc.finish hstack, Or.inl rfl⟩
  | broke c stack count hstack _ => exact ⟨k, hc.finish hstack, Or.inl rfl⟩
  | handOff c stack value rest r receivers hstack _ hreceivers =>
      exact ⟨k, hc.handOff hfirst hstack rfl (Or.inl ⟨hreceivers, rfl⟩), Or.inl rfl⟩
  | wake c stack count value buffer p senders hstack _ _ hsenders =>
      exact ⟨k, hc.handOff hfirst hstack rfl (Or.inr ⟨hsenders, rfl⟩), Or.inl rfl⟩
  | sendSuspends c stack value rest hstack _ _ _ =>
      exact ⟨k, hc.suspend hstack (Or.inl ⟨rfl, rfl, rfl⟩), Or.inl rfl⟩
  | recvSuspends c stack count hstack _ _ =>
      exact ⟨k, hc.suspend hstack (Or.inr ⟨rfl, rfl, rfl⟩), Or.inl rfl⟩
  | stored c stack value rest hstack _ _ _ =>
      exact ⟨k, hc.move hstack rfl rfl rfl rfl rfl rfl, Or.inl rfl⟩
  | storedLate c stack value rest hstack _ =>
      exact ⟨k, hc.move hstack rfl rfl rfl rfl rfl rfl, Or.inl rfl⟩
  | sendReturned c stack rest hstack _ => exact ⟨k, hc.setPoint hstack rfl, Or.inl rfl⟩
  | took c stack count value buffer hstack _ _ _ =>
      exact ⟨k, hc.move hstack rfl rfl rfl rfl rfl rfl, Or.inl rfl⟩
  | fetched c stack count value buffer hstack _ _ =>
      exact ⟨k, hc.move hstack rfl rfl rfl rfl rfl rfl, Or.inl rfl⟩
  | fetchedNil c stack count hstack _ _ => exact ⟨k, hc.setPoint hstack rfl, Or.inl rfl⟩
  | recvReturned c stack value count hstack _ => exact ⟨k, hc.setPoint hstack rfl, Or.inl rfl⟩

end Step

end Lua

end Csp
