/-
# The print server in JavaScript (`javascript/actor/print_server.js`)

`emit` runs the handler of a message up to its `await`, which increments the counter; the rest of
the handler runs once its timer has expired, and reads the counter then.  So a message that is
emitted while the handler of an earlier one waits for its timer changes the number of the earlier
one (`run_number`), and the messages are handled one after the other only if there is no such
message (`run_sequential_iff`).
-/
import Cocurrency.Lib.Run
import Mathlib.Data.List.Nodup
import Mathlib.Data.Nat.Notation
import Mathlib.Data.String.Basic
import Mathlib.Tactic.SplitIfs

namespace Actor

namespace JsPrintServer

/-- A handler that waits for its timer: its message is the `index`-th one that has been emitted, and
`replyCallback` resolves the promise of an `ask`. -/
structure Handler where
  index : ℕ
  text : String
  replyCallback : Option ℕ
  deriving DecidableEq, Repr

/-- `messages` have been emitted to the listener, and `promises` made by `ask`. -/
structure State where
  counter : ℕ
  running : Bool
  /-- The listener of `start` has not been removed. -/
  listening : Bool
  pending : List Handler
  messages : ℕ
  promises : ℕ

/-- The calls of the methods, and the timers. -/
inductive Action where
  | tell (text : String)
  | ask (text : String)
  /-- The timer of a handler expires. -/
  | expire (i : ℕ)
  | stop

/-- A message is sent. -/
def Action.sends : Action → Bool
  | tell _ | ask _ => true
  | _ => false

/-- What a step shows. -/
inductive Event where
  | began (index : ℕ)
  /-- No listener, or the listener returns at once. -/
  | ignored
  /-- The output is printed, with the number that it has, and is the answer to an `ask`. -/
  | printed (index number : ℕ) (line : String) (answer : Option (ℕ × String))
  | stopped
  deriving DecidableEq, Repr

namespace State

/-- After `start`. -/
def start : State := ⟨0, true, true, [], 0, 0⟩

/-- The line that is printed. -/
def output (counter : ℕ) (text : String) : String := s!"[PrintServer] #{counter} printed: {text}"

/-- A message reaches the listener, and the listener does not return at once. -/
def handles (s : State) : Bool := s.listening && s.running

/-- `emit`, with the handler up to its `await`. -/
def emit (s : State) (text : String) (replyCallback : Option ℕ) : Event × State :=
  if s.handles then
    (.began (s.messages + 1),
      { s with counter := s.counter + 1, messages := s.messages + 1,
               pending := s.pending ++ [⟨s.messages + 1, text, replyCallback⟩] })
  else (.ignored, s)

/-- The next step. -/
def step (s : State) : Action → Option (Event × State)
  | .tell text => some (s.emit text none)
  | .ask text => some ({ s with promises := s.promises + 1 }.emit text (some s.promises))
  | .expire i =>
      match s.pending[i]? with
      | none => none
      | some handler =>
          let line := output s.counter handler.text
          some (.printed handler.index s.counter s!"  {line}"
              (handler.replyCallback.map fun promise => (promise, line)),
            { s with pending := s.pending.eraseIdx i })
  | .stop => some (.stopped, { s with running := false, listening := false })

end State

/-! ## What a step does -/

namespace State

/-- What a step does to the counter and the handlers. -/
inductive Effect (s : State) : Action → Event → State → Prop
  | emits (a : Action) (text : String) (replyCallback : Option ℕ) (s' : State) :
      a.sends = true → s.handles = true →
      s'.counter = s.counter + 1 → s'.messages = s.messages + 1 →
      s'.pending = s.pending ++ [⟨s.messages + 1, text, replyCallback⟩] →
      Effect s a (.began (s.messages + 1)) s'
  | ignores (a : Action) (s' : State) : s.handles = false → s'.counter = s.counter →
      s'.messages = s.messages → s'.pending = s.pending → Effect s a .ignored s'
  | prints (i : ℕ) (handler : Handler) (line : String) (answer : Option (ℕ × String)) :
      s.pending[i]? = some handler →
      Effect s (.expire i) (.printed handler.index s.counter line answer)
        { s with pending := s.pending.eraseIdx i }
  | stops : Effect s .stop .stopped { s with running := false, listening := false }

variable {s s' : State} {a : Action} {e : Event}

/-- What a step does. -/
theorem effect_step (hs : s.step a = some (e, s')) : Effect s a e s' := by
  cases a with
  | tell text =>
      rw [step, emit] at hs
      split_ifs at hs with hhandles
      · cases hs
        exact .emits _ text none _ rfl hhandles rfl rfl rfl
      · cases hs
        exact .ignores _ _ (Bool.eq_false_iff.mpr hhandles) rfl rfl rfl
  | ask text =>
      rw [step, emit] at hs
      split_ifs at hs with hhandles
      · cases hs
        exact .emits _ text (some s.promises) _ rfl hhandles rfl rfl rfl
      · cases hs
        exact .ignores _ _ (Bool.eq_false_iff.mpr hhandles) rfl rfl rfl
  | expire i =>
      rw [step] at hs
      split at hs
      · cases hs
      · next handler hpending =>
        cases hs
        exact .prints i handler _ _ hpending
  | stop =>
      cases hs
      exact .stops

end State

/-! ## Numbers -/

/-- The number of a message whose handler begins. -/
def Event.index : Event → Option ℕ
  | began index => some index
  | _ => none

/-- The number that is printed. -/
def Event.number : Event → Option ℕ
  | printed _ number _ _ => some number
  | _ => none

/-- The messages that have been emitted. -/
def emitted (h : List Event) : List ℕ := h.filterMap Event.index

/-- The numbers that have been printed. -/
def numbers (h : List Event) : List ℕ := h.filterMap Event.number

/-- The messages are handled one after the other. -/
structure Sequential (h : List Event) : Prop where
  /-- The `i`-th message is printed, and answered, with number `i`. -/
  numbered : ∀ index number line answer, Event.printed index number line answer ∈ h →
    number = index
  /-- No number is used twice. -/
  nodup : (numbers h).Nodup
  /-- When the handling of a message begins, that of those before it has finished. -/
  ordered : ∀ h₁ index, h₁ ++ [.began index] <+: h → ∀ index', Event.began index' ∈ h₁ →
    ∃ number line answer, Event.printed index' number line answer ∈ h₁

namespace State

/-- No message is emitted while the handler of another one waits for its timer. -/
def Alone (s : State) (a : Action) : Prop :=
  a.sends = true → s.handles = true → s.pending = []

instance (s : State) (a : Action) : Decidable (Alone s a) := inferInstanceAs (Decidable (_ → _))

variable {s s' : State} {a : Action} {e : Event} {h : List Event}

/-- In every run: the counter counts the messages, and whoever waits for a timer has begun and not
printed. -/
structure CountsOk (h : List Event) (s : State) : Prop where
  counter : s.counter = s.messages
  length : s.messages = (emitted h).length
  nodup : (s.pending.map Handler.index).Nodup
  began : ∀ handler ∈ s.pending, handler.index ≤ s.messages ∧ Event.began handler.index ∈ h
  printed : ∀ index number line answer, Event.printed index number line answer ∈ h →
    index ≤ s.messages ∧ ∀ handler ∈ s.pending, handler.index ≠ index

/-- At the start nothing has been counted. -/
theorem CountsOk.start : CountsOk [] start :=
  ⟨rfl, rfl, List.nodup_nil, List.forall_mem_nil _, fun _ _ _ _ hmem =>
    absurd hmem List.not_mem_nil⟩

/-- Nothing begins, and nothing is printed. -/
theorem CountsOk.quiet (hc : CountsOk h s) (hindex : e.index = none)
    (hprinted : ∀ index number line answer, e ≠ .printed index number line answer)
    (hcounter : s'.counter = s.counter) (hmessages : s'.messages = s.messages)
    (hpending : s'.pending = s.pending) : CountsOk (h ++ [e]) s' := by
  refine ⟨?_, ?_, ?_, ?_, fun index number line answer hmem => ?_⟩
  · rw [hcounter, hmessages]
    exact hc.counter
  · rw [hmessages, hc.length]
    simp [emitted, List.filterMap_append, hindex]
  · rw [hpending]
    exact hc.nodup
  · rw [hpending, hmessages]
    exact fun handler hmem =>
      ⟨(hc.began handler hmem).1, List.mem_append_left _ (hc.began handler hmem).2⟩
  · rw [hpending, hmessages]
    rcases List.mem_append.mp hmem with hmem | hmem
    · exact hc.printed index number line answer hmem
    · exact absurd (List.mem_singleton.mp hmem).symm (hprinted index number line answer)

/-- A handler begins, with a number of its own. -/
theorem CountsOk.emits (hc : CountsOk h s) {text : String} {replyCallback : Option ℕ}
    (hcounter : s'.counter = s.counter + 1) (hmessages : s'.messages = s.messages + 1)
    (hpending : s'.pending = s.pending ++ [⟨s.messages + 1, text, replyCallback⟩]) :
    CountsOk (h ++ [.began (s.messages + 1)]) s' := by
  refine ⟨?_, ?_, ?_, ?_, fun index number line answer hmem => ?_⟩
  · rw [hcounter, hmessages, hc.counter]
  · rw [hmessages, hc.length]
    simp [emitted, List.filterMap_append, Event.index]
  · rw [hpending, List.map_append]
    refine List.nodup_append'.mpr ⟨hc.nodup, List.nodup_singleton _, fun index hmem hlast => ?_⟩
    obtain ⟨handler, hhandler, rfl⟩ := List.mem_map.mp hmem
    have hle := (hc.began handler hhandler).1
    rw [List.mem_singleton.mp hlast] at hle
    exact absurd hle (Nat.not_succ_le_self _)
  · rw [hpending, hmessages]
    intro handler hmem
    rcases List.mem_append.mp hmem with hmem | hmem
    · obtain ⟨hle, hbegan⟩ := hc.began handler hmem
      exact ⟨Nat.le_succ_of_le hle, List.mem_append_left _ hbegan⟩
    · rw [List.mem_singleton.mp hmem]
      exact ⟨le_rfl, List.mem_append_right _ (List.mem_singleton_self _)⟩
  · rw [hpending, hmessages]
    rcases List.mem_append.mp hmem with hmem | hmem
    · obtain ⟨hle, hne⟩ := hc.printed index number line answer hmem
      refine ⟨Nat.le_succ_of_le hle, fun handler hhandler => ?_⟩
      rcases List.mem_append.mp hhandler with hhandler | hhandler
      · exact hne handler hhandler
      · rw [List.mem_singleton.mp hhandler]
        exact (Nat.lt_succ_of_le hle).ne'
    · cases List.mem_singleton.mp hmem

/-- A handler prints, and is gone. -/
theorem CountsOk.prints (hc : CountsOk h s) {i : ℕ} {handler : Handler} (line : String)
    (answer : Option (ℕ × String)) (hget : s.pending[i]? = some handler) :
    CountsOk (h ++ [.printed handler.index s.counter line answer])
      { s with pending := s.pending.eraseIdx i } := by
  have hsub : (s.pending.eraseIdx i).Sublist s.pending := List.eraseIdx_sublist _ _
  have hmem : handler ∈ s.pending := List.mem_of_getElem? hget
  refine ⟨hc.counter, ?_, hc.nodup.sublist (hsub.map _), fun handler' hmem' => ?_,
    fun index number line' answer' hprinted => ?_⟩
  · rw [hc.length]
    simp [emitted, List.filterMap_append, Event.index]
  · obtain ⟨hle, hbegan⟩ := hc.began handler' (hsub.subset hmem')
    exact ⟨hle, List.mem_append_left _ hbegan⟩
  · rcases List.mem_append.mp hprinted with hprinted | hprinted
    · obtain ⟨hle, hne⟩ := hc.printed index number line' answer' hprinted
      exact ⟨hle, fun handler' hmem' => hne handler' (hsub.subset hmem')⟩
    · cases List.mem_singleton.mp hprinted
      refine ⟨(hc.began handler hmem).1, fun handler' hmem' heq => ?_⟩
      -- the handlers that go on waiting have other messages
      obtain ⟨j, hne, hget'⟩ := List.mem_eraseIdx_iff_getElem?.mp hmem'
      have hi : (s.pending.map Handler.index)[i]? = some handler.index := by
        rw [List.getElem?_map, hget]
        rfl
      have hj : (s.pending.map Handler.index)[j]? = some handler.index := by
        rw [List.getElem?_map, hget']
        exact congrArg some heq
      have hlt : j < (s.pending.map Handler.index).length :=
        (List.getElem?_eq_some_iff.mp hj).1
      exact hne ((List.getElem?_inj hlt hc.nodup).mp (hj.trans hi.symm))

/-- **The step lemma** for the counts. -/
theorem CountsOk.effect (hc : CountsOk h s) (heffect : Effect s a e s') :
    CountsOk (h ++ [e]) s' := by
  cases heffect with
  | emits _ text replyCallback _ hcall hhandles hcounter hmessages hpending =>
      exact hc.emits hcounter hmessages hpending
  | ignores _ _ hhandles hcounter hmessages hpending =>
      exact hc.quiet rfl (fun _ _ _ _ => Event.noConfusion) hcounter hmessages hpending
  | prints i handler line answer hget => exact hc.prints line answer hget
  | stops => exact hc.quiet rfl (fun _ _ _ _ => Event.noConfusion) rfl rfl rfl

/-- The counts are right in every run. -/
theorem run_counts (hr : Run step anyStep start h s) : CountsOk h s :=
  Run.invariant (fun h s => CountsOk h s) .start
    (fun _ _ _ _ _ hc _ hs => hc.effect (effect_step hs)) hr

/-- **The number that is printed** is that of the messages that have been emitted, whatever the
message that it is printed with. -/
theorem run_number (hr : Run step anyStep start h s) {h₁ : List Event} {index number : ℕ}
    {line : String} {answer : Option (ℕ × String)}
    (hpre : h₁ ++ [.printed index number line answer] <+: h) :
    number = (emitted h₁).length ∧ index ≤ number := by
  induction hr with
  | nil => exact absurd (List.prefix_nil.mp hpre) (by simp)
  | @snoc h s s' a e hr _ hs ih =>
      rcases List.prefix_concat_iff.mp hpre with heq | hpre
      · obtain ⟨rfl, hlast⟩ := List.append_inj' heq rfl
        have hc := run_counts hr
        have heffect := effect_step hs
        rw [← List.singleton_inj.mp hlast] at heffect
        cases heffect with
        | prints i handler line answer hget =>
            refine ⟨hc.counter.trans hc.length, ?_⟩
            rw [hc.counter]
            exact (hc.began handler (List.mem_of_getElem? hget)).1
      · exact ih hpre

/-! ## One message at a time -/

end State

/-- What was sequential up to some point. -/
theorem Sequential.of_append {h h' : List Event} (hseq : Sequential (h ++ h')) : Sequential h := by
  refine ⟨fun index number line answer hmem =>
    hseq.numbered index number line answer (List.mem_append_left _ hmem), ?_,
    fun h₁ index hpre => hseq.ordered h₁ index (hpre.trans (List.prefix_append _ _))⟩
  have hnodup := hseq.nodup
  rw [numbers, List.filterMap_append] at hnodup
  exact List.Nodup.of_append_left hnodup

/-- One event more. -/
theorem Sequential.snoc {h : List Event} {e : Event} (hseq : Sequential h)
    (hnumbered : ∀ index number line answer, e = .printed index number line answer →
      number = index)
    (hnodup : (numbers (h ++ [e])).Nodup)
    (hordered : ∀ index, e = .began index → ∀ index', Event.began index' ∈ h →
      ∃ number line answer, Event.printed index' number line answer ∈ h) :
    Sequential (h ++ [e]) := by
  refine ⟨fun index number line answer hmem => ?_, hnodup, fun h₁ index hpre => ?_⟩
  · rcases List.mem_append.mp hmem with hmem | hmem
    · exact hseq.numbered index number line answer hmem
    · exact hnumbered index number line answer (List.mem_singleton.mp hmem).symm
  · rcases List.prefix_concat_iff.mp hpre with heq | hpre
    · obtain ⟨rfl, hlast⟩ := List.append_inj' heq rfl
      exact hordered index (List.singleton_inj.mp hlast).symm
    · exact hseq.ordered h₁ index hpre

namespace State

variable {s s' : State} {a : Action} {e : Event} {h : List Event}

/-- A run that is sequential has one handler at a time. -/
theorem alone_of_sequential (hr : Run step anyStep start h s) (hseq : Sequential h) :
    Run step Alone start h s := by
  induction hr with
  | nil => exact .nil
  | @snoc h s s' a e hr _ hs ih =>
      refine (ih hseq.of_append).snoc ?_ hs
      intro hcall hhandles
      have hc := run_counts hr
      have heffect := effect_step hs
      cases heffect with
      | emits _ text replyCallback _ _ _ hcounter hmessages hpending =>
          -- all messages before this one have been printed, so that no handler waits
          by_contra hne
          obtain ⟨handler, hmem⟩ := List.exists_mem_of_ne_nil _ hne
          obtain ⟨number, line, answer, hprinted⟩ :=
            hseq.ordered h _ List.prefix_rfl _ (hc.began handler hmem).2
          exact (hc.printed _ number line answer hprinted).2 handler hmem rfl
      | ignores _ _ hnot hcounter hmessages hpending =>
          rw [hhandles] at hnot
          cases hnot
      | prints i handler line answer hget => cases hcall
      | stops => cases hcall

/-- What holds as long as every message is emitted alone. -/
structure AloneOk (h : List Event) (s : State) : Prop where
  counts : CountsOk h s
  sequential : Sequential h
  one : s.pending.length ≤ 1
  last : ∀ handler ∈ s.pending, handler.index = s.messages
  used : ∀ number ∈ numbers h, number ≤ s.messages ∧ (s.pending ≠ [] → number < s.messages)
  done : ∀ index, Event.began index ∈ h → (∃ handler ∈ s.pending, handler.index = index) ∨
    ∃ number line answer, Event.printed index number line answer ∈ h

/-- At the start no handler runs. -/
theorem AloneOk.start : AloneOk [] start where
  counts := .start
  sequential := by
    refine ⟨fun _ _ _ _ hmem => absurd hmem List.not_mem_nil, List.nodup_nil, ?_⟩
    intro h₁ index hpre
    exact absurd (List.prefix_nil.mp hpre) (by simp)
  one := Nat.zero_le 1
  last := List.forall_mem_nil _
  used := List.forall_mem_nil _
  done := fun _ hmem => absurd hmem List.not_mem_nil

/-- Nothing is emitted and nothing is printed. -/
theorem AloneOk.quiet (ho : AloneOk h s) (hc' : CountsOk (h ++ [e]) s') (hindex : e.index = none)
    (hnumber : e.number = none) (hmessages : s'.messages = s.messages)
    (hpending : s'.pending = s.pending) : AloneOk (h ++ [e]) s' := by
  have hnumbers : numbers (h ++ [e]) = numbers h := by
    simp [numbers, List.filterMap_append, hnumber]
  have hbegan : ∀ index, e ≠ .began index := by
    rintro index rfl
    cases hindex
  have hsequential : Sequential (h ++ [e]) := by
    refine ho.sequential.snoc ?_ ?_ fun index heq => absurd heq (hbegan index)
    · rintro index number line answer rfl
      cases hnumber
    · rw [hnumbers]
      exact ho.sequential.nodup
  refine ⟨hc', hsequential, ?_, ?_, ?_, fun index hmem => ?_⟩
  · rw [hpending]
    exact ho.one
  · rw [hpending, hmessages]
    exact ho.last
  · rw [hnumbers, hpending, hmessages]
    exact ho.used
  · rw [hpending]
    rcases List.mem_append.mp hmem with hmem | hmem
    · refine (ho.done index hmem).imp id ?_
      rintro ⟨number, line, answer, hprinted⟩
      exact ⟨number, line, answer, List.mem_append_left _ hprinted⟩
    · exact absurd (List.mem_singleton.mp hmem).symm (hbegan index)

/-- A message is emitted while no handler waits. -/
theorem AloneOk.emits (ho : AloneOk h s) (hempty : s.pending = []) {text : String}
    {replyCallback : Option ℕ} (hc' : CountsOk (h ++ [.began (s.messages + 1)]) s')
    (hmessages : s'.messages = s.messages + 1)
    (hpending : s'.pending = s.pending ++ [⟨s.messages + 1, text, replyCallback⟩]) :
    AloneOk (h ++ [.began (s.messages + 1)]) s' := by
  rw [hempty, List.nil_append] at hpending
  have hnumbers : numbers (h ++ [.began (s.messages + 1)]) = numbers h := by
    simp [numbers, List.filterMap_append, Event.number]
  have hdone : ∀ index, Event.began index ∈ h →
      ∃ number line answer, Event.printed index number line answer ∈ h := by
    intro index hmem
    refine (ho.done index hmem).resolve_left ?_
    rw [hempty]
    exact fun ⟨handler, hhandler, _⟩ => absurd hhandler List.not_mem_nil
  have hsequential : Sequential (h ++ [.began (s.messages + 1)]) := by
    refine ho.sequential.snoc (fun _ _ _ _ => Event.noConfusion) ?_ fun _ _ => hdone
    rw [hnumbers]
    exact ho.sequential.nodup
  refine ⟨hc', hsequential, ?_, ?_, ?_, fun index hmem => ?_⟩
  · rw [hpending]
    rfl
  · rw [hpending, hmessages]
    exact List.forall_mem_singleton.mpr rfl
  · rw [hnumbers, hmessages]
    intro number hmem
    have hle := (ho.used number hmem).1
    exact ⟨Nat.le_succ_of_le hle, fun _ => Nat.lt_succ_of_le hle⟩
  · rcases List.mem_append.mp hmem with hmem | hmem
    · obtain ⟨number, line, answer, hprinted⟩ := hdone index hmem
      exact Or.inr ⟨number, line, answer, List.mem_append_left _ hprinted⟩
    · cases List.mem_singleton.mp hmem
      rw [hpending]
      exact Or.inl ⟨_, List.mem_singleton_self _, rfl⟩

/-- The only handler that waits prints. -/
theorem AloneOk.prints (ho : AloneOk h s) {i : ℕ} {handler : Handler} {line : String}
    {answer : Option (ℕ × String)} (hget : s.pending[i]? = some handler)
    (hc' : CountsOk (h ++ [.printed handler.index s.counter line answer])
      { s with pending := s.pending.eraseIdx i }) :
    AloneOk (h ++ [.printed handler.index s.counter line answer])
      { s with pending := s.pending.eraseIdx i } := by
  have hmem := List.mem_of_getElem? hget
  have hindex := ho.last handler hmem
  have hne : s.pending ≠ [] := List.ne_nil_of_mem hmem
  have hlt : i < s.pending.length := (List.getElem?_eq_some_iff.mp hget).1
  have hone := ho.one
  have hempty : s.pending.eraseIdx i = [] := by
    refine List.eq_nil_of_length_eq_zero ?_
    rw [List.length_eraseIdx_of_lt hlt]
    omega
  have hall : ∀ handler' ∈ s.pending, handler' = handler := by
    intro handler' hmem'
    obtain ⟨x, hx⟩ := List.length_eq_one_iff.mp (show s.pending.length = 1 by omega)
    rw [hx] at hmem hmem'
    rw [List.mem_singleton.mp hmem, List.mem_singleton.mp hmem']
  have hcounter := ho.counts.counter
  have hnumbers : numbers (h ++ [.printed handler.index s.counter line answer]) =
      numbers h ++ [s.counter] := by
    simp [numbers, List.filterMap_append, Event.number]
  have hsequential : Sequential (h ++ [.printed handler.index s.counter line answer]) := by
    refine ho.sequential.snoc ?_ ?_ fun _ => Event.noConfusion
    · intro index number line' answer' heq
      cases heq
      exact hcounter.trans hindex.symm
    · rw [hnumbers]
      refine List.nodup_append'.mpr ⟨ho.sequential.nodup, List.nodup_singleton _,
        fun number hnumber hlast => ?_⟩
      rw [List.mem_singleton.mp hlast] at hnumber
      exact absurd ((ho.used s.counter hnumber).2 hne) (by omega)
  refine ⟨hc', hsequential, ?_, ?_, ?_, fun index hbegan => ?_⟩
  · show (s.pending.eraseIdx i).length ≤ 1
    rw [hempty]
    exact Nat.zero_le 1
  · show ∀ handler' ∈ s.pending.eraseIdx i, handler'.index = s.messages
    rw [hempty]
    exact List.forall_mem_nil _
  · rw [hnumbers]
    intro number hnumber
    refine ⟨?_, fun hne' => absurd hempty hne'⟩
    rcases List.mem_append.mp hnumber with hnumber | hnumber
    · exact (ho.used number hnumber).1
    · exact (List.mem_singleton.mp hnumber).trans_le hcounter.le
  · rcases List.mem_append.mp hbegan with hbegan | hbegan
    · refine Or.inr ?_
      rcases ho.done index hbegan with ⟨handler', hmem', rfl⟩ | ⟨number, line', answer', hprinted⟩
      · rw [hall handler' hmem']
        exact ⟨_, _, _, List.mem_append_right _ (List.mem_singleton_self _)⟩
      · exact ⟨number, line', answer', List.mem_append_left _ hprinted⟩
    · cases List.mem_singleton.mp hbegan

/-- **The step lemma** for one handler at a time. -/
theorem AloneOk.effect (ho : AloneOk h s) (hok : Alone s a) (heffect : Effect s a e s') :
    AloneOk (h ++ [e]) s' := by
  have hc' := ho.counts.effect heffect
  cases heffect with
  | emits _ text replyCallback _ hcall hhandles hcounter hmessages hpending =>
      exact ho.emits (hok hcall hhandles) hc' hmessages hpending
  | ignores _ _ hnot hcounter hmessages hpending => exact ho.quiet hc' rfl rfl hmessages hpending
  | prints i handler line answer hget => exact ho.prints hget hc'
  | stops => exact ho.quiet hc' rfl rfl rfl rfl

/-- **One message at a time.**  The messages are handled one after the other, each with its own
number, if and only if none is emitted while a handler waits for its timer. -/
theorem run_sequential_iff (hr : Run step anyStep start h s) :
    Sequential h ↔ Run step Alone start h s := by
  refine ⟨alone_of_sequential hr, fun hr => ?_⟩
  have ho : AloneOk h s := Run.invariant (fun h s => AloneOk h s) .start
    (fun _ _ _ _ _ ho hok hs => ho.effect hok (effect_step hs)) hr
  exact ho.sequential

/-- Two messages, the second one after the first one has been printed. -/
theorem run_sequential_iff_demo : ∃ (h : List Event) (s : State),
    Run step anyStep start h s ∧ s.messages = 2 ∧ Sequential h := by
  have hr := run_of_replay step (s := start)
    [.tell "hello", .expire 0, .ask "report", .expire 0] rfl
  have hok : Run step Alone start _ _ := run_of_replay_guarded step Alone (s := start)
    [.tell "hello", .expire 0, .ask "report", .expire 0] rfl
  exact ⟨_, _, hr, rfl, (run_sequential_iff hr).mpr hok⟩

/-- Two messages at once: the first one is printed with number 2. -/
theorem not_sequential : ¬ ∀ (h : List Event) (s : State), Run step anyStep start h s →
    Sequential h := by
  intro hall
  have hr := run_of_replay step (s := start) [.tell "hello", .tell "report", .expire 0] rfl
  have hnumber := (hall _ _ hr).numbered 1 2 "  [PrintServer] #2 printed: hello" none (by decide)
  revert hnumber
  decide

end State

end JsPrintServer

end Actor
