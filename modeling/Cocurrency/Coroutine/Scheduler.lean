/-
# The round-robin scheduler (`python/stackful_coroutine/greenlet_demo.py`)

`Scheduler` takes the coroutine at the front of its queue, switches to it if it is alive, and puts
it at the end if it still is.  A coroutine `c` needs `needs c` switches, the last of which makes it
dead; `kills h` are those that `kill` is called on in the course of the last switch of the history
`h`.

The queue is compared with rounds through the list of all coroutines in the order in which they were
added (`Round`, `Rounds`).  In the middle of a round it holds the alive ones of those that are still
to come, and then of those that have had their turn; the dead ones in it do not matter (`QueueOk`).

* `run_roundRobin` : `run` ends, the switches are made in rounds, and each coroutine gets what it
  needs until it is killed.
-/
import Mathlib.Algebra.Order.BigOperators.Group.List
import Mathlib.Algebra.Order.Ring.Nat
import Mathlib.Data.List.Infix
import Mathlib.Data.List.Nodup
import Mathlib.Logic.Function.Basic

namespace Coroutine

/-- The queue `_ready`, `_current`, the attributes `is_alive`, and the switches so far. -/
structure Scheduler (κ : Type*) where
  ready : List κ
  current : Option κ
  isAlive : κ → Bool
  switched : List κ

namespace Scheduler

variable {κ : Type*} [DecidableEq κ]

/-- `Scheduler()`, before any coroutine is added; one that needs no switch is dead. -/
def new (needs : κ → ℕ) : Scheduler κ := ⟨[], none, fun c => decide (0 < needs c), []⟩

/-- `add`. -/
def add (s : Scheduler κ) (coro : κ) : Scheduler κ := { s with ready := s.ready ++ [coro] }

/-- `kill`. -/
def kill (s : Scheduler κ) (coro : κ) : Scheduler κ :=
  { s with isAlive := Function.update s.isAlive coro false }

variable (needs : κ → ℕ) (kills : List κ → List κ)

/-- `switch`: the coroutine runs up to where it suspends or ends. -/
def switch (s : Scheduler κ) (coro : κ) : Scheduler κ :=
  let switched := s.switched ++ [coro]
  let killed := (kills switched).foldl kill { s with switched := switched }
  if switched.count coro = needs coro then killed.kill coro else killed

/-- The body of the loop in `run`. -/
def body (s : Scheduler κ) : Scheduler κ :=
  match s.ready with
  | [] => s
  | coro :: ready =>
      let s := { s with ready := ready, current := some coro }
      if s.isAlive coro then
        let s := s.switch needs kills coro
        if s.isAlive coro then { s with ready := s.ready ++ [coro] } else s
      else s

/-- The scheduler of these coroutines after `n` iterations of the loop. -/
def after (coros : List κ) (n : ℕ) : Scheduler κ :=
  (body needs kills)^[n] (coros.foldl add (new needs))

/-! ## Rounds -/

/-- After the switches `h` a coroutine is alive: it needs another one, and no switch has killed
it. -/
def Alive (h : List κ) (c : κ) : Prop :=
  h.count c < needs c ∧ ∀ h₁, h₁ <+: h → h₁ ≠ [] → c ∉ kills h₁

/-- The switches of one round, which goes through the coroutines in order: after the switches `h`
it makes one to each coroutine that is alive when its turn comes. -/
inductive Round (h : List κ) : List κ → List κ → Prop
  | nil : Round h [] []
  | alive {cs r : List κ} {c : κ} : Round h cs r → Alive needs kills (h ++ r) c →
      Round h (cs ++ [c]) (r ++ [c])
  | dead {cs r : List κ} {c : κ} : Round h cs r → ¬ Alive needs kills (h ++ r) c →
      Round h (cs ++ [c]) r

/-- The switches of a number of rounds. -/
inductive Rounds (coros : List κ) : List κ → Prop
  | nil : Rounds coros []
  | snoc {h r : List κ} : Rounds coros h → Round needs kills h coros r → Rounds coros (h ++ r)

variable {needs kills}

/-- Coroutines that are dead add nothing to a round. -/
theorem Round.append_dead {h cs r : List κ} (hround : Round needs kills h cs r) (ds : List κ)
    (hdead : ∀ d ∈ ds, ¬ Alive needs kills (h ++ r) d) : Round needs kills h (cs ++ ds) r := by
  induction ds using List.reverseRecOn with
  | nil =>
      rw [List.append_nil]
      exact hround
  | append_singleton ds d ih =>
      rw [← List.append_assoc]
      apply Round.dead
      · exact ih fun d' hd' => hdead d' (List.mem_append_left _ hd')
      · exact hdead d (List.mem_append_right _ (List.mem_singleton_self d))

theorem alive_snoc {h : List κ} {c d : κ} :
    Alive needs kills (h ++ [d]) c ↔
      (h ++ [d]).count c < needs c ∧ c ∉ kills (h ++ [d]) ∧
        ∀ h₁, h₁ <+: h → h₁ ≠ [] → c ∉ kills h₁ := by
  constructor
  · rintro ⟨hcount, hkills⟩
    refine ⟨hcount, hkills _ List.prefix_rfl (by simp), ?_⟩
    intro h₁ hpre hne
    exact hkills h₁ (hpre.trans (List.prefix_append h [d])) hne
  · rintro ⟨hcount, hlast, hkills⟩
    refine ⟨hcount, ?_⟩
    intro h₁ hpre hne
    rcases List.prefix_concat_iff.mp hpre with rfl | hpre
    · exact hlast
    · exact hkills h₁ hpre hne

/-! ## A switch -/

theorem kill_isAlive (s : Scheduler κ) (c d : κ) :
    (s.kill d).isAlive c = true ↔ s.isAlive c = true ∧ c ≠ d := by
  unfold kill
  dsimp only
  rw [Function.update_apply]
  split_ifs with hc
  · simp [hc]
  · simp [hc]

/-- `kill`, called on some coroutines, changes nothing else. -/
theorem foldl_kill (s : Scheduler κ) (cs : List κ) :
    (cs.foldl kill s).ready = s.ready ∧ (cs.foldl kill s).switched = s.switched ∧
      ∀ c, (cs.foldl kill s).isAlive c = true ↔ s.isAlive c = true ∧ c ∉ cs := by
  induction cs generalizing s with
  | nil => simp
  | cons d cs ih =>
      obtain ⟨hready, hswitched, halive⟩ := ih (s.kill d)
      refine ⟨hready, hswitched, fun c => ?_⟩
      rw [List.foldl_cons, halive, kill_isAlive, List.mem_cons, not_or, and_assoc]

variable (needs kills) in
/-- What a switch does. -/
theorem switch_spec (s : Scheduler κ) (c : κ) :
    (s.switch needs kills c).ready = s.ready ∧
    (s.switch needs kills c).switched = s.switched ++ [c] ∧
    ∀ d, (s.switch needs kills c).isAlive d = true ↔
      s.isAlive d = true ∧ d ∉ kills (s.switched ++ [c]) ∧
        ((s.switched ++ [c]).count c = needs c → d ≠ c) := by
  have hkills := foldl_kill { s with switched := s.switched ++ [c] } (kills (s.switched ++ [c]))
  obtain ⟨hready, hswitched, halive⟩ := hkills
  unfold switch
  dsimp only
  split_ifs with hlast
  · refine ⟨hready, hswitched, fun d => ?_⟩
    rw [kill_isAlive, halive]
    simp only [hlast, forall_const, and_assoc]
  · refine ⟨hready, hswitched, fun d => ?_⟩
    rw [halive]
    simp only [hlast, false_implies, and_true]

/-- The attributes `is_alive` are what the switches have made of them. -/
def AliveOk (needs : κ → ℕ) (kills : List κ → List κ) (s : Scheduler κ) : Prop :=
  ∀ c, s.isAlive c = true ↔ Alive needs kills s.switched c

theorem AliveOk.switch {s : Scheduler κ} {c : κ} (hok : AliveOk needs kills s) :
    s.isAlive c = true → AliveOk needs kills (s.switch needs kills c) := by
  intro hc d
  obtain ⟨-, hswitched, halive⟩ := switch_spec needs kills s c
  have hcount := ((hok c).mp hc).1
  rw [halive, hswitched, alive_snoc, hok d, Alive]
  by_cases hd : d = c
  · subst hd
    rw [List.count_append, List.count_singleton_self]
    constructor
    · rintro ⟨⟨_, hbefore⟩, hkilled, hlast⟩
      have hne : s.switched.count d + 1 ≠ needs d := fun heq => hlast heq rfl
      exact ⟨by omega, hkilled, hbefore⟩
    · rintro ⟨hlt, hkilled, hbefore⟩
      exact ⟨⟨hcount, hbefore⟩, hkilled, by omega⟩
  · have hsame : (s.switched ++ [c]).count d = s.switched.count d := by
      rw [List.count_append, List.count_singleton, if_neg (by simpa using Ne.symm hd)]
      rfl
    rw [hsame]
    constructor
    · rintro ⟨⟨hlt, hbefore⟩, hkilled, _⟩
      exact ⟨hlt, hkilled, hbefore⟩
    · rintro ⟨hlt, hkilled, hbefore⟩
      exact ⟨⟨hlt, hbefore⟩, hkilled, fun _ => hd⟩

/-! ## An iteration of the loop -/

/-- What the body of the loop does with the coroutine at the front. -/
theorem body_spec {s : Scheduler κ} {c : κ} {rest : List κ} (hready : s.ready = c :: rest)
    (hok : AliveOk needs kills s) :
    AliveOk needs kills (s.body needs kills) ∧
    (s.isAlive c = false → (s.body needs kills).ready = rest ∧
      (s.body needs kills).switched = s.switched ∧ (s.body needs kills).isAlive = s.isAlive) ∧
    (s.isAlive c = true → (s.body needs kills).switched = s.switched ++ [c] ∧
      (s.body needs kills).ready = rest ++ [c].filter (s.body needs kills).isAlive ∧
      ∀ d, (s.body needs kills).isAlive d = true → s.isAlive d = true) := by
  cases hc : s.isAlive c with
  | false =>
      have hbody : s.body needs kills = { s with ready := rest, current := some c } := by
        unfold body
        rw [hready]
        exact if_neg (by simp [hc])
      rw [hbody]
      exact ⟨hok, fun _ => ⟨rfl, rfl, rfl⟩, fun h => absurd h (by simp)⟩
  | true =>
      let popped : Scheduler κ := { s with ready := rest, current := some c }
      have hbody : s.body needs kills =
          if (popped.switch needs kills c).isAlive c then
            { popped.switch needs kills c with
              ready := (popped.switch needs kills c).ready ++ [c] }
          else popped.switch needs kills c := by
        unfold body
        rw [hready]
        exact if_pos hc
      have hpopped : AliveOk needs kills (popped.switch needs kills c) :=
        AliveOk.switch (s := popped) hok hc
      obtain ⟨hready', hswitched, halive⟩ := switch_spec needs kills popped c
      have hsubset : ∀ d, (popped.switch needs kills c).isAlive d = true → s.isAlive d = true :=
        fun d hd => ((halive d).mp hd).1
      refine ⟨?_, fun h => absurd h (by simp), fun _ => ?_⟩
      · rw [hbody]
        split_ifs
        · exact hpopped
        · exact hpopped
      · rw [hbody]
        split_ifs with hstays
        · refine ⟨hswitched, ?_, hsubset⟩
          show (popped.switch needs kills c).ready ++ [c] = rest ++ _
          rw [hready', List.filter_singleton]
          simp only [hstays, cond_true]
          rfl
        · refine ⟨hswitched, ?_, hsubset⟩
          rw [hready', List.filter_singleton, Bool.eq_false_iff.mpr hstays]
          exact (List.append_nil rest).symm

/-! ## The queue in the middle of a round -/

/-- Rounds `h` have been made, and in the round under way the coroutines `a` have had their turn,
with the switches `r`, and `b` not.  The alive ones in the queue are those in `b` and then those
in `a`. -/
structure InRound (needs : κ → ℕ) (kills : List κ → List κ) (coros : List κ) (s : Scheduler κ)
    (h a b r : List κ) : Prop where
  coros_eq : coros = a ++ b
  rounds : Rounds needs kills coros h
  round : Round needs kills h a r
  switched_eq : s.switched = h ++ r
  ready_eq : s.ready.filter s.isAlive = b.filter s.isAlive ++ a.filter s.isAlive

/-- What holds before each iteration of the loop. -/
structure QueueOk (needs : κ → ℕ) (kills : List κ → List κ) (coros : List κ) (s : Scheduler κ) :
    Prop where
  alive : AliveOk needs kills s
  count_le : ∀ c, s.switched.count c ≤ needs c
  before : ∀ h₁ c h₂, s.switched = h₁ ++ c :: h₂ → Alive needs kills h₁ c
  ready_subset : ∀ c ∈ s.ready, c ∈ coros
  inRound : ∃ h a b r, InRound needs kills coros s h a b r

variable {coros : List κ} {s : Scheduler κ} {h a b r : List κ}

/-- The round goes past coroutines that are dead. -/
theorem InRound.pass (hin : InRound needs kills coros s h a b r) (hok : AliveOk needs kills s)
    {ds : List κ} (hdead : ds.filter s.isAlive = []) : Round needs kills h (a ++ ds) r := by
  apply hin.round.append_dead
  intro d hd halive
  rw [← hin.switched_eq] at halive
  have hmem : d ∈ ds.filter s.isAlive := List.mem_filter.mpr ⟨hd, (hok d).mpr halive⟩
  rw [hdead] at hmem
  cases hmem

/-- If nobody in `b` is alive, the round is over. -/
theorem InRound.over (hin : InRound needs kills coros s h a b r) (hok : AliveOk needs kills s)
    (hdead : b.filter s.isAlive = []) : Rounds needs kills coros s.switched := by
  rw [hin.switched_eq]
  apply Rounds.snoc hin.rounds
  rw [hin.coros_eq]
  exact hin.pass hok hdead

/-- Someone alive in the queue can be looked for among those that have not had their turn: if
there is none, the next round begins. -/
theorem InRound.exists_next (hin : InRound needs kills coros s h a b r)
    (hok : AliveOk needs kills s) {c : κ} {rest : List κ} (hready : s.ready = c :: rest)
    (hc : s.isAlive c = true) :
    ∃ h a b₁ b₂ r,
      InRound needs kills coros s h a (b₁ ++ c :: b₂) r ∧ b₁.filter s.isAlive = [] := by
  have hfront : c :: rest.filter s.isAlive = b.filter s.isAlive ++ a.filter s.isAlive := by
    rw [← hin.ready_eq, hready, List.filter_cons_of_pos hc]
  -- in either case the first alive one is `c`, and those before it are dead
  have hsplit : ∀ l l' : List κ, c :: l' = l.filter s.isAlive →
      ∃ b₁ b₂, l = b₁ ++ c :: b₂ ∧ b₁.filter s.isAlive = [] := by
    intro l l' hl
    obtain ⟨b₁, b₂, rfl, hdead, -, -⟩ := List.filter_eq_cons_iff.mp hl.symm
    refine ⟨b₁, b₂, rfl, List.filter_eq_nil_iff.mpr hdead⟩
  rcases List.append_eq_cons_iff.mp hfront.symm with ⟨hdead, hnext⟩ | ⟨l', hnext, -⟩
  · have hnew : InRound needs kills coros s s.switched [] coros [] := by
      refine ⟨rfl, hin.over hok hdead, .nil, (List.append_nil _).symm, ?_⟩
      rw [hin.ready_eq, hin.coros_eq, List.filter_append, hdead, List.filter_nil]
      simp
    obtain ⟨b₁, b₂, hcoros, hb₁⟩ := hsplit coros (rest.filter s.isAlive) (by
      rw [hin.coros_eq, List.filter_append, hdead, List.append_nil, hnext])
    refine ⟨s.switched, [], b₁, b₂, [], ?_, hb₁⟩
    rw [← hcoros]
    exact hnew
  · obtain ⟨b₁, b₂, rfl, hb₁⟩ := hsplit b l' hnext.symm
    exact ⟨h, a, b₁, b₂, r, hin, hb₁⟩

omit [DecidableEq κ] in
/-- Who is alive later is picked from those alive now. -/
theorem filter_filter_of_imp {p q : κ → Bool} (himp : ∀ c, p c = true → q c = true) (l : List κ) :
    (l.filter q).filter p = l.filter p := by
  rw [List.filter_filter]
  apply List.filter_congr
  intro c _
  cases hc : p c with
  | false => rfl
  | true => rw [himp c hc, Bool.and_true]

/-- A coroutine that is alive has its turn: those before it in the round are dead, and it goes to
the end of the queue. -/
theorem InRound.turn {s' : Scheduler κ} {b₁ b₂ rest : List κ} {c : κ}
    (hin : InRound needs kills coros s h a (b₁ ++ c :: b₂) r) (hok : AliveOk needs kills s)
    (hdead : b₁.filter s.isAlive = []) (hready : s.ready = c :: rest) (hc : s.isAlive c = true)
    (hswitched : s'.switched = s.switched ++ [c])
    (hready' : s'.ready = rest ++ [c].filter s'.isAlive)
    (hsubset : ∀ d, s'.isAlive d = true → s.isAlive d = true) :
    InRound needs kills coros s' h (a ++ b₁ ++ [c]) b₂ (r ++ [c]) := by
  have hrest : rest.filter s.isAlive = b₂.filter s.isAlive ++ a.filter s.isAlive := by
    have heq := hin.ready_eq
    rw [hready, List.filter_cons_of_pos hc, List.filter_append, hdead, List.nil_append,
      List.filter_cons_of_pos hc, List.cons_append] at heq
    exact (List.cons.inj heq).2
  constructor
  · rw [hin.coros_eq]
    simp
  · exact hin.rounds
  · apply (hin.pass hok hdead).alive
    rw [← hin.switched_eq]
    exact (hok c).mp hc
  · rw [hswitched, hin.switched_eq, List.append_assoc]
  · have hdead' : b₁.filter s'.isAlive = [] := by
      rw [← filter_filter_of_imp hsubset, hdead, List.filter_nil]
    rw [hready', List.filter_append, ← filter_filter_of_imp hsubset rest, hrest,
      List.filter_append, filter_filter_of_imp hsubset, filter_filter_of_imp hsubset,
      List.filter_append, List.filter_append, hdead', List.append_nil, List.append_assoc,
      filter_filter_of_imp fun _ hd => hd]

/-- A dead coroutine leaves the queue. -/
theorem QueueOk.skip (hq : QueueOk needs kills coros s) {c : κ} {rest : List κ}
    (hready : s.ready = c :: rest) (hc : s.isAlive c = false) :
    QueueOk needs kills coros (s.body needs kills) := by
  obtain ⟨halive, hdead, -⟩ := body_spec hready hq.alive
  obtain ⟨hready', hswitched, hsame⟩ := hdead hc
  obtain ⟨h, a, b, r, hin⟩ := hq.inRound
  refine ⟨halive, ?_, ?_, ?_, h, a, b, r, hin.coros_eq, hin.rounds, hin.round, ?_, ?_⟩
  · rw [hswitched]
    exact hq.count_le
  · rw [hswitched]
    exact hq.before
  · intro d hd
    rw [hready'] at hd
    apply hq.ready_subset
    rw [hready]
    exact List.mem_cons_of_mem c hd
  · rw [hswitched]
    exact hin.switched_eq
  · rw [hready', hsame, ← hin.ready_eq, hready, List.filter_cons_of_neg (by simp [hc])]

/-- One that is alive is switched to, and comes back to the queue if it still is. -/
theorem QueueOk.turn (hq : QueueOk needs kills coros s) {c : κ} {rest : List κ}
    (hready : s.ready = c :: rest) (hc : s.isAlive c = true) :
    QueueOk needs kills coros (s.body needs kills) := by
  obtain ⟨halive, -, hturn⟩ := body_spec hready hq.alive
  obtain ⟨hswitched, hready', hsubset⟩ := hturn hc
  obtain ⟨_, _, _, _, hin⟩ := hq.inRound
  obtain ⟨h, a, b₁, b₂, r, hin, hb₁⟩ := hin.exists_next hq.alive hready hc
  have hnow : Alive needs kills s.switched c := (hq.alive c).mp hc
  refine ⟨halive, ?_, ?_, ?_, h, _, b₂, _,
    hin.turn hq.alive hb₁ hready hc hswitched hready' hsubset⟩
  · intro d
    rw [hswitched, List.count_append, List.count_singleton]
    have hle := hq.count_le d
    split_ifs with hd
    · have hcount := hnow.1
      rw [beq_iff_eq.mp hd] at hcount
      omega
    · exact hle
  · intro h₁ d h₂ hsplit
    rw [hswitched] at hsplit
    -- the last switch, or an earlier one
    rcases List.eq_nil_or_concat h₂ with rfl | ⟨h₂, d', rfl⟩
    · obtain ⟨rfl, hd⟩ := List.append_inj' hsplit rfl
      obtain rfl := List.singleton_inj.mp hd
      exact hnow
    · rw [List.concat_eq_append, ← List.cons_append, ← List.append_assoc] at hsplit
      exact hq.before h₁ d h₂ (List.append_inj' hsplit rfl).1
  · intro d hd
    rw [hready'] at hd
    apply hq.ready_subset
    rw [hready]
    rcases List.mem_append.mp hd with hd | hd
    · exact List.mem_cons_of_mem c hd
    · obtain rfl := List.mem_singleton.mp (List.mem_of_mem_filter hd)
      exact List.mem_cons_self

/-- The body of the loop keeps the queue in order. -/
theorem QueueOk.body (hq : QueueOk needs kills coros s) :
    QueueOk needs kills coros (s.body needs kills) := by
  cases hready : s.ready with
  | nil =>
      have hbody : s.body needs kills = s := by
        unfold Scheduler.body
        rw [hready]
      rw [hbody]
      exact hq
  | cons c rest =>
      cases hc : s.isAlive c with
      | false => exact hq.skip hready hc
      | true => exact hq.turn hready hc

/-! ## Runs -/

omit [DecidableEq κ] in
theorem foldl_add (s : Scheduler κ) (coros : List κ) :
    coros.foldl add s = { s with ready := s.ready ++ coros } := by
  induction coros generalizing s with
  | nil =>
      rw [List.append_nil]
      rfl
  | cons c coros ih =>
      rw [List.foldl_cons, ih]
      unfold add
      simp

theorem queueOk_new (needs : κ → ℕ) (kills : List κ → List κ) (coros : List κ) :
    QueueOk needs kills coros (coros.foldl add (new needs)) := by
  rw [foldl_add]
  refine ⟨?_, fun c => Nat.zero_le _, ?_, fun c hc => hc, [], [], coros, [], ?_⟩
  · intro c
    show decide (0 < needs c) = true ↔ Alive needs kills [] c
    rw [decide_eq_true_iff]
    constructor
    · intro hpos
      refine ⟨hpos, fun h₁ hpre hne => ?_⟩
      exact absurd (List.prefix_nil.mp hpre) hne
    · exact And.left
  · intro h₁ c h₂ hsplit
    cases h₁ <;> cases hsplit
  · refine ⟨rfl, .nil, .nil, rfl, ?_⟩
    show (([] : List κ) ++ coros).filter _ = _
    simp

/-- The iterations that are left, at most. -/
def left (needs : κ → ℕ) (coros : List κ) (s : Scheduler κ) : ℕ :=
  s.ready.length + (coros.map fun c => needs c - s.switched.count c).sum

theorem QueueOk.left_lt (hq : QueueOk needs kills coros s) (hne : s.ready ≠ []) :
    left needs coros (s.body needs kills) < left needs coros s := by
  obtain ⟨c, rest, hready⟩ := List.exists_cons_of_ne_nil hne
  obtain ⟨-, hdead, hturn⟩ := body_spec hready hq.alive
  unfold left
  cases hc : s.isAlive c with
  | false =>
      obtain ⟨hready', hswitched, -⟩ := hdead hc
      rw [hready', hswitched, hready, List.length_cons]
      omega
  | true =>
      obtain ⟨hswitched, hready', -⟩ := hturn hc
      have hlength : (s.body needs kills).ready.length ≤ s.ready.length := by
        rw [hready', hready, List.length_append, List.length_cons]
        have hle := List.length_filter_le (s.body needs kills).isAlive [c]
        rw [List.length_singleton] at hle
        omega
      -- the coroutine needs one switch less
      have hsum : (coros.map fun d => needs d - (s.body needs kills).switched.count d).sum <
          (coros.map fun d => needs d - s.switched.count d).sum := by
        rw [hswitched]
        apply List.sum_lt_sum
        · intro d _
          rw [List.count_append]
          omega
        · refine ⟨c, hq.ready_subset c (by rw [hready]; exact List.mem_cons_self), ?_⟩
          have hlt := ((hq.alive c).mp hc).1
          rw [List.count_append, List.count_singleton_self]
          omega
      omega

/-- The loop ends, with the queue in order. -/
theorem QueueOk.exists_empty (hq : QueueOk needs kills coros s) :
    ∃ n, ((Scheduler.body needs kills)^[n] s).ready = [] ∧
      QueueOk needs kills coros ((Scheduler.body needs kills)^[n] s) := by
  induction hleft : left needs coros s using Nat.strongRecOn generalizing s with
  | _ k ih =>
      by_cases hready : s.ready = []
      · exact ⟨0, hready, hq⟩
      · obtain ⟨n, hn⟩ := ih _ (hleft ▸ hq.left_lt hready) hq.body rfl
        refine ⟨n + 1, ?_⟩
        rw [Function.iterate_succ_apply]
        exact hn

/-- **A fair round robin.**  Whatever the coroutines need and whomever they kill, `run` ends.  The
switches are made in rounds, each of which goes through the coroutines in the order in which they
were added and switches once to each that is alive when its turn comes.  Who is never killed is
switched to as often as needed, and who is killed never again. -/
theorem run_roundRobin (needs : κ → ℕ) (kills : List κ → List κ) (coros : List κ) :
    ∃ n, (after needs kills coros n).ready = [] ∧
      Rounds needs kills coros (after needs kills coros n).switched ∧
      (∀ c ∈ coros,
        (∀ h, h <+: (after needs kills coros n).switched → h ≠ [] → c ∉ kills h) →
          (after needs kills coros n).switched.count c = needs c) ∧
      ∀ h₁ h₂ c, (after needs kills coros n).switched = h₁ ++ h₂ → h₁ ≠ [] → c ∈ kills h₁ →
        c ∉ h₂ := by
  obtain ⟨n, hready, hq⟩ := (queueOk_new needs kills coros).exists_empty
  obtain ⟨h, a, b, r, hin⟩ := hq.inRound
  have hnobody := hin.ready_eq
  rw [hready, List.filter_nil] at hnobody
  obtain ⟨hb, ha⟩ := List.append_eq_nil_iff.mp hnobody.symm
  refine ⟨n, hready, hin.over hq.alive hb, ?_, ?_⟩
  · intro c hc hnever
    -- who is in the list, and not alive, has had all the switches or has been killed
    have hdead : ¬ Alive needs kills (after needs kills coros n).switched c := by
      intro halive
      rw [hin.coros_eq] at hc
      rcases List.mem_append.mp hc with hc | hc
      · exact List.filter_eq_nil_iff.mp ha c hc ((hq.alive c).mpr halive)
      · exact List.filter_eq_nil_iff.mp hb c hc ((hq.alive c).mpr halive)
    have hle := hq.count_le c
    by_contra hne
    exact hdead ⟨lt_of_le_of_ne hle hne, hnever⟩
  · intro h₁ h₂ c hsplit hne hkilled hmem
    obtain ⟨g₁, g₂, rfl⟩ := List.append_of_mem hmem
    rw [← List.append_assoc] at hsplit
    have halive := hq.before (h₁ ++ g₁) c g₂ hsplit
    exact halive.2 h₁ (List.prefix_append h₁ g₁) hne hkilled

/-- Of three coroutines that need 2, 3 and 1 switches the second kills the first in its first
switch: the first round is whole, the second is without the first and the third. -/
example : (after (fun c => [2, 3, 1].getD c 0) (fun h => if h.getLast? = some 1 then [0] else [])
    [0, 1, 2] 7).switched = [0, 1, 2, 1, 1] := by decide

end Scheduler

end Coroutine
