/-
# A pipeline of goroutines (`go/csp_deep_dive/main.go`)

`demo4` ranges over `square(generator(nums...))`: one goroutine sends the numbers, one receives them
and sends their squares, and the caller prints what it receives.  The channels have no buffer, so
that a send and its receive are one step.  An `int` has 64 bits.

* `Goes` : what a step can do, statement by statement;
* `Control`, `line` : where the three of them are, and what is on its way between them;
* `work_run` : the number of steps of a run does not depend on the schedule;
* `schedule_independent` : nor does what is received.
-/
import Cocurrency.Lib.Relay
import Cocurrency.Lib.Run
import Mathlib.Data.Nat.Basic

namespace Csp

/-- The goroutine of `generator(nums...)`. -/
inductive GeneratorPhase where
  | absent
  /-- at the head of `for _, n := range nums` -/
  | loop (rest : List Int64)
  /-- in `out <- n` -/
  | sending (n : Int64) (rest : List Int64)
  /-- at `close(out)` -/
  | closing
  | returned
  | panicked
  deriving DecidableEq, Repr

/-- The goroutine of `square(in)`. -/
inductive SquarePhase where
  | absent
  /-- at the head of `for n := range in` -/
  | ranging
  /-- about to compute `n * n` -/
  | body (n : Int64)
  /-- in `out <- n * n` -/
  | sending (value : Int64)
  /-- at `close(out)` -/
  | closing
  | returned
  | panicked
  deriving DecidableEq, Repr

/-- `demo4`. -/
inductive DemoPhase where
  /-- about to call `generator` -/
  | start
  /-- about to call `square` -/
  | generated
  /-- at the head of `for result := range ...` -/
  | ranging
  /-- about to print `result` -/
  | printing (result : Int64)
  | finished
  deriving DecidableEq, Repr

/-- `demo4`, the two goroutines, and whether the channel of each is closed. -/
structure GoPipeline where
  nums : List Int64
  demo : DemoPhase
  generator : GeneratorPhase
  square : SquarePhase
  firstClosed : Bool
  secondClosed : Bool
  deriving DecidableEq, Repr

namespace GoPipeline

/-- Before the first call. -/
def start (nums : List Int64) : GoPipeline := ⟨nums, .start, .absent, .absent, false, false⟩

/-- A step of `demo4` or of a goroutine alone, or the passing of a value on a channel. -/
inductive Action where
  | demo
  | generator
  | square
  | first
  | second
  deriving DecidableEq, Repr

/-- What a step shows. -/
inductive Event where
  /-- a step without an effect on a channel -/
  | goes
  /-- a value is passed from `generator` to `square` -/
  | first (n : Int64)
  /-- a value is passed from `square` to `demo4` -/
  | second (value : Int64)
  /-- the two numbers of a printed line -/
  | printed (base result : Int64)
  | closed
  /-- a send on a closed channel, or its closing -/
  | panicked
  deriving DecidableEq, Repr

/-- The next step of a goroutine, unless it waits or has returned. -/
def step (s : GoPipeline) : Action → Option (Event × GoPipeline)
  | .demo =>
      match s.demo with
      | .start => some (.goes, { s with demo := .generated, generator := .loop s.nums })
      | .generated => some (.goes, { s with demo := .ranging, square := .ranging })
      | .ranging => if s.secondClosed then some (.goes, { s with demo := .finished }) else none
      | .printing result => some (.printed result result, { s with demo := .ranging })
      | .finished => none
  | .generator =>
      match s.generator with
      | .absent => none
      | .loop [] => some (.goes, { s with generator := .closing })
      | .loop (n :: rest) => some (.goes, { s with generator := .sending n rest })
      | .sending _ _ =>
          if s.firstClosed then some (.panicked, { s with generator := .panicked }) else none
      | .closing =>
          if s.firstClosed then some (.panicked, { s with generator := .panicked })
          else some (.closed, { s with generator := .returned, firstClosed := true })
      | .returned => none
      | .panicked => none
  | .square =>
      match s.square with
      | .absent => none
      | .ranging => if s.firstClosed then some (.goes, { s with square := .closing }) else none
      | .body n => some (.goes, { s with square := .sending (n * n) })
      | .sending _ =>
          if s.secondClosed then some (.panicked, { s with square := .panicked }) else none
      | .closing =>
          if s.secondClosed then some (.panicked, { s with square := .panicked })
          else some (.closed, { s with square := .returned, secondClosed := true })
      | .returned => none
      | .panicked => none
  | .first =>
      match s.generator, s.square with
      | .sending n rest, .ranging =>
          if s.firstClosed then none
          else some (.first n, { s with generator := .loop rest, square := .body n })
      | _, _ => none
  | .second =>
      match s.square, s.demo with
      | .sending value, .ranging =>
          if s.secondClosed then none
          else some (.second value, { s with square := .ranging, demo := .printing value })
      | _, _ => none

/-! ## Control -/

/-- Where the three are: a channel is closed by the return of its goroutine, and nobody gets past
the end of a channel that is not closed. -/
structure Control (s : GoPipeline) : Prop where
  first_closed : s.firstClosed = true ↔ s.generator = .returned
  second_closed : s.secondClosed = true ↔ s.square = .returned
  generator_absent : s.generator = .absent ↔ s.demo = .start
  square_absent : s.square = .absent ↔ s.demo = .start ∨ s.demo = .generated
  drained : s.square = .closing ∨ s.square = .returned → s.generator = .returned
  finished : s.demo = .finished → s.square = .returned
  generator_runs : s.generator ≠ .panicked
  square_runs : s.square ≠ .panicked

/-- What a step can do, with no panic. -/
inductive Goes (s : GoPipeline) : Event → GoPipeline → Prop
  | generate : s.demo = .start →
      Goes s .goes { s with demo := .generated, generator := .loop s.nums }
  | square : s.demo = .generated → Goes s .goes { s with demo := .ranging, square := .ranging }
  | finish : s.demo = .ranging → s.secondClosed = true → Goes s .goes { s with demo := .finished }
  | print (result : Int64) : s.demo = .printing result →
      Goes s (.printed result result) { s with demo := .ranging }
  | exhausted : s.generator = .loop [] → Goes s .goes { s with generator := .closing }
  | next (n : Int64) (rest : List Int64) : s.generator = .loop (n :: rest) →
      Goes s .goes { s with generator := .sending n rest }
  | closeFirst : s.generator = .closing → s.firstClosed = false →
      Goes s .closed { s with generator := .returned, firstClosed := true }
  | drained : s.square = .ranging → s.firstClosed = true →
      Goes s .goes { s with square := .closing }
  | multiply (n : Int64) : s.square = .body n →
      Goes s .goes { s with square := .sending (n * n) }
  | closeSecond : s.square = .closing → s.secondClosed = false →
      Goes s .closed { s with square := .returned, secondClosed := true }
  | first (n : Int64) (rest : List Int64) : s.generator = .sending n rest → s.square = .ranging →
      s.firstClosed = false →
      Goes s (.first n) { s with generator := .loop rest, square := .body n }
  | second (value : Int64) : s.square = .sending value → s.demo = .ranging →
      s.secondClosed = false →
      Goes s (.second value) { s with square := .ranging, demo := .printing value }

variable {s s' : GoPipeline} {a : Action} {e : Event}

/-- A goroutine that has not returned has its channel open. -/
theorem Control.first_open (hc : Control s) (h : s.generator ≠ .returned) :
    s.firstClosed = false :=
  Bool.eq_false_iff.mpr (mt hc.first_closed.mp h)

theorem Control.second_open (hc : Control s) (h : s.square ≠ .returned) : s.secondClosed = false :=
  Bool.eq_false_iff.mpr (mt hc.second_closed.mp h)

/-- **The steps.** -/
theorem goes_of_step (hc : Control s) (hs : s.step a = some (e, s')) : Goes s e s' := by
  unfold step at hs
  cases a with
  | demo =>
      cases hd : s.demo with
      | start =>
          simp only [hd, Option.some.injEq, Prod.mk.injEq] at hs
          obtain ⟨rfl, rfl⟩ := hs
          exact .generate hd
      | generated =>
          simp only [hd, Option.some.injEq, Prod.mk.injEq] at hs
          obtain ⟨rfl, rfl⟩ := hs
          exact .square hd
      | ranging =>
          simp only [hd, Option.ite_none_right_eq_some, Option.some.injEq, Prod.mk.injEq] at hs
          obtain ⟨hclosed, rfl, rfl⟩ := hs
          exact .finish hd hclosed
      | printing result =>
          simp only [hd, Option.some.injEq, Prod.mk.injEq] at hs
          obtain ⟨rfl, rfl⟩ := hs
          exact .print result hd
      | finished => simp [hd] at hs
  | generator =>
      cases hg : s.generator with
      | loop rest =>
          cases rest with
          | nil =>
              simp only [hg, Option.some.injEq, Prod.mk.injEq] at hs
              obtain ⟨rfl, rfl⟩ := hs
              exact .exhausted hg
          | cons n rest =>
              simp only [hg, Option.some.injEq, Prod.mk.injEq] at hs
              obtain ⟨rfl, rfl⟩ := hs
              exact .next n rest hg
      | sending n rest =>
          have hopen : s.firstClosed = false := hc.first_open (by rw [hg]; nofun)
          simp [hg, hopen] at hs
      | closing =>
          have hopen : s.firstClosed = false := hc.first_open (by rw [hg]; nofun)
          simp only [hg, hopen, Bool.false_eq_true, if_false, Option.some.injEq,
            Prod.mk.injEq] at hs
          obtain ⟨rfl, rfl⟩ := hs
          exact .closeFirst hg hopen
      | absent => simp [hg] at hs
      | returned => simp [hg] at hs
      | panicked => simp [hg] at hs
  | square =>
      cases hq : s.square with
      | ranging =>
          simp only [hq, Option.ite_none_right_eq_some, Option.some.injEq, Prod.mk.injEq] at hs
          obtain ⟨hclosed, rfl, rfl⟩ := hs
          exact .drained hq hclosed
      | body n =>
          simp only [hq, Option.some.injEq, Prod.mk.injEq] at hs
          obtain ⟨rfl, rfl⟩ := hs
          exact .multiply n hq
      | sending value =>
          have hopen : s.secondClosed = false := hc.second_open (by rw [hq]; nofun)
          simp [hq, hopen] at hs
      | closing =>
          have hopen : s.secondClosed = false := hc.second_open (by rw [hq]; nofun)
          simp only [hq, hopen, Bool.false_eq_true, if_false, Option.some.injEq,
            Prod.mk.injEq] at hs
          obtain ⟨rfl, rfl⟩ := hs
          exact .closeSecond hq hopen
      | absent => simp [hq] at hs
      | returned => simp [hq] at hs
      | panicked => simp [hq] at hs
  | first =>
      dsimp only at hs
      split at hs
      · next n rest hg hq =>
        simp only [Option.ite_none_left_eq_some, Option.some.injEq, Prod.mk.injEq] at hs
        obtain ⟨hopen, rfl, rfl⟩ := hs
        exact .first n rest hg hq (Bool.eq_false_iff.mpr hopen)
      · cases hs
  | second =>
      dsimp only at hs
      split at hs
      · next value hq hd =>
        simp only [Option.ite_none_left_eq_some, Option.some.injEq, Prod.mk.injEq] at hs
        obtain ⟨hopen, rfl, rfl⟩ := hs
        exact .second value hq hd (Bool.eq_false_iff.mpr hopen)
      · cases hs

/-- At the start nothing runs but `demo4`. -/
theorem control_start (nums : List Int64) : Control (start nums) := by
  constructor <;> simp [start]

/-- **Control is kept.** -/
theorem Goes.control (hg : Goes s e s') (hc : Control s) : Control s' := by
  obtain ⟨hfirst, hsecond, hgenerator, hsquare, hdrained, hfinished, hruns, hruns'⟩ := hc
  -- a step moves one or two of the three, and a flag is set by the step that returns
  cases hg with
  | generate hd => constructor <;> simp_all
  | square hd => constructor <;> simp_all
  | finish hd hclosed => constructor <;> simp_all
  | print result hd => constructor <;> simp_all
  | exhausted hg => constructor <;> simp_all
  | next n rest hg => constructor <;> simp_all
  | closeFirst hg hopen => constructor <;> simp_all
  | drained hq hclosed => constructor <;> simp_all
  | multiply n hq => constructor <;> simp_all
  | closeSecond hq hopen => constructor <;> simp_all
  | first n rest hg hq hopen => constructor <;> simp_all
  | second value hq hd hopen => constructor <;> simp_all

/-- What the generator has still to send. -/
def unread (s : GoPipeline) : List Int64 :=
  match s.generator with
  | .absent => s.nums
  | .loop rest => rest
  | .sending n rest => n :: rest
  | .closing => []
  | .returned => []
  | .panicked => []

/-- What the other goroutine has still to send of what it has received. -/
def inHand (s : GoPipeline) : List Int64 :=
  match s.square with
  | .body n => [n * n]
  | .sending value => [value]
  | _ => []

/-- A value that `generator` passes. -/
def Event.first? : Event → Option Int64
  | .first n => some n
  | _ => none

/-- A value that `square` passes. -/
def Event.second? : Event → Option Int64
  | .second value => some value
  | _ => none

/-- What `demo4` has received. -/
def received (h : List Event) : List Int64 := h.filterMap Event.second?

/-- The pipeline as the line of a relay. -/
def line (h : List Event) (s : GoPipeline) : Relay.Line Int64 Int64 :=
  ⟨s.unread, h.filterMap Event.first?, s.inHand, received h, true⟩

/-- An event without a channel leaves the line alone, with what is on its way. -/
theorem line_quiet {h : List Event} (hfirst : e.first? = none) (hsecond : e.second? = none)
    (hunread : s'.unread = s.unread) (hhand : s'.inHand = s.inHand) :
    line (h ++ [e]) s' = line h s := by
  simp [line, received, List.filterMap_append, hfirst, hsecond, hunread, hhand]

/-- **The pipeline relays.**  A step receives a number, sends a square, or does neither. -/
theorem Goes.line (hg : Goes s e s') (hc : Control s) (h : List Event) :
    line (h ++ [e]) s' = line h s ∨
      line (h ++ [e]) s' = (line h s).receive (fun n => n * n) 1 ∨
        line (h ++ [e]) s' = (line h s).send 1 := by
  cases hg with
  | generate hd =>
      have habsent : s.generator = .absent := hc.generator_absent.mpr hd
      exact Or.inl (line_quiet rfl rfl (by simp [unread, habsent]) rfl)
  | square hd =>
      have habsent : s.square = .absent := hc.square_absent.mpr (Or.inr hd)
      exact Or.inl (line_quiet rfl rfl rfl (by simp [inHand, habsent]))
  | finish hd hclosed => exact Or.inl (line_quiet rfl rfl rfl rfl)
  | print result hd => exact Or.inl (line_quiet rfl rfl rfl rfl)
  | exhausted hg => exact Or.inl (line_quiet rfl rfl (by simp [unread, hg]) rfl)
  | next n rest hg => exact Or.inl (line_quiet rfl rfl (by simp [unread, hg]) rfl)
  | closeFirst hg hopen => exact Or.inl (line_quiet rfl rfl (by simp [unread, hg]) rfl)
  | drained hq hclosed => exact Or.inl (line_quiet rfl rfl rfl (by simp [inHand, hq]))
  | multiply n hq => exact Or.inl (line_quiet rfl rfl rfl (by simp [inHand, hq]))
  | closeSecond hq hopen => exact Or.inl (line_quiet rfl rfl rfl (by simp [inHand, hq]))
  | first n rest hg hq hopen =>
      refine Or.inr (Or.inl ?_)
      simp [GoPipeline.line, Relay.Line.receive, received, unread, inHand, Event.first?,
        Event.second?, hg, hq]
  | second value hq hd hopen =>
      refine Or.inr (Or.inr ?_)
      simp [GoPipeline.line, Relay.Line.send, received, unread, inHand, Event.first?,
        Event.second?, hq]

/-- The line is sound, and the numbers are those received and those still to come. -/
structure Relays (nums : List Int64) (h : List Event) (s : GoPipeline) : Prop where
  control : Control s
  sound : (line h s).Sound fun n => n * n
  offered : (line h s).received ++ (line h s).unread = nums
  calm : .panicked ∉ h

/-- At the start nothing has been passed. -/
theorem relays_start (nums : List Int64) : Relays nums [] (start nums) :=
  ⟨control_start nums, Relay.Line.Sound.opened _ nums, rfl, List.not_mem_nil⟩

theorem Goes.ne_panicked (hg : Goes s e s') : e ≠ .panicked := by
  cases hg <;> nofun

/-- **The step lemma** for the values. -/
theorem Relays.step {nums : List Int64} {h : List Event} (hr : Relays nums h s)
    (hs : s.step a = some (e, s')) : Relays nums (h ++ [e]) s' := by
  have hg : Goes s e s' := goes_of_step hr.control hs
  have hcalm : .panicked ∉ h ++ [e] := by
    rw [List.mem_append, List.mem_singleton]
    rintro (hin | he)
    · exact hr.calm hin
    · exact hg.ne_panicked he.symm
  rcases hg.line hr.control h with hline | hline | hline
  · exact ⟨hg.control hr.control, hline ▸ hr.sound, hline ▸ hr.offered, hcalm⟩
  · refine ⟨hg.control hr.control, hline ▸ hr.sound.receive 1, ?_, hcalm⟩
    rw [hline]
    show _ ++ List.take 1 _ ++ List.drop 1 _ = nums
    rw [List.append_assoc, List.take_append_drop]
    exact hr.offered
  · exact ⟨hg.control hr.control, hline ▸ hr.sound.send rfl 1, hline ▸ hr.offered, hcalm⟩

/-- The values are right in every run. -/
theorem relays_run {nums : List Int64} {h : List Event}
    (hr : Run step anyStep (start nums) h s) : Relays nums h s :=
  hr.invariant (Relays nums) (relays_start nums) fun _ _ _ _ _ hrel _ hs => hrel.step hs

/-! ## The end -/

/-- Where `demo4` is stuck. -/
theorem demo_stuck (h : s.step .demo = none) :
    s.demo = .finished ∨ s.demo = .ranging ∧ s.secondClosed = false := by
  cases hd : s.demo with
  | finished => exact Or.inl rfl
  | ranging =>
      refine Or.inr ⟨rfl, Bool.eq_false_iff.mpr fun hclosed => ?_⟩
      simp [step, hd, hclosed] at h
  | start => simp [step, hd] at h
  | generated => simp [step, hd] at h
  | printing result => simp [step, hd] at h

/-- Where `generator` is stuck. -/
theorem generator_stuck (hc : Control s) (hd : s.demo ≠ .start) (h : s.step .generator = none) :
    s.generator = .returned ∨ ∃ n rest, s.generator = .sending n rest := by
  cases hg : s.generator with
  | returned => exact Or.inl rfl
  | sending n rest => exact Or.inr ⟨n, rest, rfl⟩
  | absent => exact absurd (hc.generator_absent.mp hg) hd
  | loop rest => cases rest <;> simp [step, hg] at h
  | closing =>
      have hopen : s.firstClosed = false := hc.first_open (by rw [hg]; nofun)
      simp [step, hg, hopen] at h
  | panicked => exact absurd hg hc.generator_runs

/-- Where `square` is stuck. -/
theorem square_stuck (hc : Control s) (hd : s.demo ≠ .start) (hd' : s.demo ≠ .generated)
    (h : s.step .square = none) :
    s.square = .returned ∨ s.square = .ranging ∧ s.firstClosed = false ∨
      ∃ value, s.square = .sending value := by
  cases hq : s.square with
  | returned => exact Or.inl rfl
  | ranging =>
      refine Or.inr (Or.inl ⟨rfl, Bool.eq_false_iff.mpr fun hclosed => ?_⟩)
      simp [step, hq, hclosed] at h
  | sending value => exact Or.inr (Or.inr ⟨value, rfl⟩)
  | absent => exact absurd (hc.square_absent.mp hq) (not_or.mpr ⟨hd, hd'⟩)
  | body n => simp [step, hq] at h
  | closing =>
      have hopen : s.secondClosed = false := hc.second_open (by rw [hq]; nofun)
      simp [step, hq, hopen] at h
  | panicked => exact absurd hq hc.square_runs

/-- **No deadlock.**  If no step is possible, all have come to their end. -/
theorem Control.of_stuck (hc : Control s) (hstuck : ∀ a, s.step a = none) :
    s.demo = .finished ∧ s.generator = .returned ∧ s.square = .returned := by
  rcases demo_stuck (hstuck .demo) with hd | ⟨hd, hopen⟩
  · have hsquare : s.square = .returned := hc.finished hd
    exact ⟨hd, hc.drained (Or.inr hsquare), hsquare⟩
  · -- `demo4` waits for a value, so the goroutine behind it waits for one, too
    exfalso
    have hstarted : s.demo ≠ .start := by rw [hd]; nofun
    have hcalled : s.demo ≠ .generated := by rw [hd]; nofun
    rcases square_stuck hc hstarted hcalled (hstuck .square) with hq | ⟨hq, hopen'⟩ | ⟨value, hq⟩
    · exact Bool.eq_false_iff.mp hopen (hc.second_closed.mpr hq)
    · rcases generator_stuck hc hstarted (hstuck .generator) with hg | ⟨n, rest, hg⟩
      · exact Bool.eq_false_iff.mp hopen' (hc.first_closed.mpr hg)
      · have hfirst := hstuck .first
        simp [step, hg, hq, hopen'] at hfirst
    · have hsecond := hstuck .second
      simp [step, hq, hd, hopen] at hsecond

/-! ## The number of steps -/

/-- The steps still to be made by `demo4`, but for those that a number costs. -/
def demoWork : DemoPhase → ℕ
  | .start => 3
  | .generated => 2
  | .ranging => 1
  | .printing _ => 2
  | .finished => 0

/-- The steps still to be made by the generator; a number costs five, of all three. -/
def generatorWork (nums : List Int64) : GeneratorPhase → ℕ
  | .absent => 5 * nums.length + 2
  | .loop rest => 5 * rest.length + 2
  | .sending _ rest => 5 * rest.length + 6
  | .closing => 1
  | .returned => 0
  | .panicked => 0

/-- How many steps `square` has at most, but for what it receives. -/
def squareWork : SquarePhase → ℕ
  | .absent => 2
  | .ranging => 2
  | .body _ => 5
  | .sending _ => 4
  | .closing => 1
  | .returned => 0
  | .panicked => 0

/-- How many steps are left at most. -/
def work (s : GoPipeline) : ℕ :=
  demoWork s.demo + generatorWork s.nums s.generator + squareWork s.square

theorem work_start (nums : List Int64) : (start nums).work = 5 * nums.length + 7 := by
  simp only [work, start, demoWork, generatorWork, squareWork]
  omega

/-- Every step is one of the steps to be made. -/
theorem Goes.work (hg : Goes s e s') (hc : Control s) : s'.work + 1 = s.work := by
  unfold GoPipeline.work
  cases hg with
  | generate hd =>
      rw [hd, hc.generator_absent.mpr hd]
      simp only [demoWork, generatorWork]
      omega
  | square hd =>
      rw [hd, hc.square_absent.mpr (Or.inr hd)]
      simp only [demoWork, squareWork]
      omega
  | next n rest hg =>
      rw [hg]
      simp only [generatorWork, List.length_cons]
      omega
  | first n rest hg hq hopen =>
      rw [hg, hq]
      simp only [generatorWork, squareWork]
      omega
  | second value hq hd hopen =>
      rw [hq, hd]
      simp only [demoWork, squareWork]
      omega
  | finish hd hclosed =>
      rw [hd]
      simp only [demoWork]
      omega
  | print result hd =>
      rw [hd]
      simp only [demoWork]
      omega
  | exhausted hg =>
      rw [hg]
      simp only [generatorWork, List.length_nil]
      omega
  | closeFirst hg hopen =>
      rw [hg]
      simp only [generatorWork]
      omega
  | drained hq hclosed =>
      rw [hq]
      simp only [squareWork]
  | multiply n hq =>
      rw [hq]
      simp only [squareWork]
  | closeSecond hq hopen =>
      rw [hq]
      simp only [squareWork]

/-- A run makes all its steps, in whatever order. -/
theorem work_run {nums : List Int64} {h : List Event} (hr : Run step anyStep (start nums) h s) :
    s.work + h.length = 5 * nums.length + 7 := by
  have hinv : Control s ∧ s.work + h.length = 5 * nums.length + 7 := by
    refine hr.invariant (fun h s => Control s ∧ s.work + h.length = 5 * nums.length + 7)
      ⟨control_start nums, work_start nums⟩ fun h s a e s' hinv _ hs => ?_
    obtain ⟨hc, hwork⟩ := hinv
    have hg : Goes s e s' := goes_of_step hc hs
    have hone := hg.work hc
    refine ⟨hg.control hc, ?_⟩
    rw [List.length_append, List.length_singleton]
    omega
  exact hinv.2

/-- **Termination.**  A run is at its end just if it has five steps for each number and seven more,
and every run can be taken there. -/
theorem ends {nums : List Int64} {h : List Event} (hr : Run step anyStep (start nums) h s) :
    ((∀ a, s.step a = none) ↔ h.length = 5 * nums.length + 7) ∧
      ∃ h' s', Run step anyStep s h' s' ∧ ∀ a, s'.step a = none := by
  have hc : Control s := (relays_run hr).control
  have hrun := work_run hr
  constructor
  · constructor
    · intro hstuck
      obtain ⟨hd, hg, hq⟩ := hc.of_stuck hstuck
      have hzero : s.work = 0 := by rw [work, hd, hg, hq]; rfl
      omega
    · intro hlength a
      cases hs : s.step a with
      | none => rfl
      | some r =>
          obtain ⟨e, s'⟩ := r
          have hone := (goes_of_step hc hs).work hc
          omega
  · have hlowers : ∀ s a e s', Control s → anyStep s a → step s a = some (e, s') →
        Control s' ∧ work s' < work s := by
      intro s a e s' hc _ hs
      have hg : Goes s e s' := goes_of_step hc hs
      exact ⟨hg.control hc, Nat.lt_of_succ_le (Nat.le_of_eq (hg.work hc))⟩
    obtain ⟨h', s', hr', hstuck⟩ := Run.exists_stuck Control work hlowers hc
    exact ⟨h', s', hr', fun a => hstuck a trivial⟩

/-! ## Results -/

/-- **Any schedule.**  What `demo4` has received is at every moment a prefix of the squares, nothing
is sent on a closed channel, and if no step is possible, all squares have been received, both
channels are closed, and both goroutines and `demo4` have returned. -/
theorem schedule_independent (nums : List Int64) (h : List Event) (s : GoPipeline)
    (hr : Run step anyStep (start nums) h s) :
    received h <+: nums.map (fun n => n * n) ∧
      .panicked ∉ h ∧
      (∀ n rest, s.generator = .sending n rest → s.firstClosed = false) ∧
      (∀ value, s.square = .sending value → s.secondClosed = false) ∧
      ((∀ a, s.step a = none) →
        received h = nums.map (fun n => n * n) ∧ s.firstClosed = true ∧ s.secondClosed = true ∧
          s.generator = .returned ∧ s.square = .returned ∧ s.demo = .finished) := by
  have hrel := relays_run hr
  have hc := hrel.control
  refine ⟨hrel.offered ▸ hrel.sound.sent_prefix_offered, hrel.calm, fun n rest hg => ?_,
    fun value hq => ?_, fun hstuck => ?_⟩
  · exact hc.first_open (by rw [hg]; nofun)
  · exact hc.second_open (by rw [hq]; nofun)
  · obtain ⟨hd, hg, hq⟩ := hc.of_stuck hstuck
    have hunread : s.unread = [] := by rw [unread, hg]
    have hhand : s.inHand = [] := by rw [inHand, hq]
    have hall : h.filterMap Event.first? = nums := by
      have hoffered : h.filterMap Event.first? ++ s.unread = nums := hrel.offered
      rw [hunread, List.append_nil] at hoffered
      exact hoffered
    have hsquares : received h ++ s.inHand = (h.filterMap Event.first?).map fun n => n * n :=
      hrel.sound.queued_eq rfl
    rw [hhand, List.append_nil, hall] at hsquares
    exact ⟨hsquares, hc.first_closed.mpr hg, hc.second_closed.mpr hq, hg, hq, hd⟩

/-- A schedule for two numbers, in which each goroutine is as early as it can be. -/
def earlySchedule : List Action :=
  [.demo, .generator, .demo, .first, .generator, .square, .second, .first, .generator, .generator,
    .square, .demo, .second, .square, .demo, .square, .demo]

/-- The schedule for two numbers, to its end. -/
theorem schedule_independent_pair :
    ∃ h s, replay step (start [3, -2]) earlySchedule = some (h, s) ∧ received h = [9, 4] ∧
      s.firstClosed = true ∧ s.secondClosed = true := by
  have hreplay : replay step (start [3, -2]) earlySchedule = some (_, _) := rfl
  have hr := run_of_replay step earlySchedule hreplay
  have hend := (schedule_independent _ _ _ hr).2.2.2.2 (by intro a; cases a <;> rfl)
  exact ⟨_, _, hreplay, hend.1, hend.2.1, hend.2.2.1⟩

end GoPipeline

end Csp
