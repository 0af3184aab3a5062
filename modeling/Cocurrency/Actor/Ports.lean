/-
# The print servers of other languages (`bend-lang/actor/print_server.bend`,
`lua/actor/print_server.lua`, `kotlin/actor/PrintServer.kt`)

The Python server handles the jobs in front of the first `Shutdown` of its mailbox
(`handledJobs_of_messages`).  The ports represent the shutdown differently:

* Bend: a message of the list, which the loop goes on after: all jobs are counted
  (`processAll_messages`);
* Lua: a flag that the coroutine tests between two jobs: those in the mailbox stay there
  (`handled_stop`);
* Kotlin: a flag, and then the channel is closed: those in the channel stay there as well, except
  one that the server is already waiting for (`run_stopped`).

`ports_agree_iff` : when each of them handles the jobs that Python does.
-/
import Cocurrency.Actor.PrintServer
import Cocurrency.Lib.Machine
import Mathlib.Data.List.TakeDrop

namespace Actor

/-! ## Python -/

namespace PrintServer

/-- The job of a `tell`. -/
def job (text : String) : PrintJob := ⟨text, none⟩

/-- The mailbox of a server that is told some jobs, to shut down, and more jobs. -/
def messages (before after : List String) : List Message :=
  (before.map job).map .printJob ++ .shutdown :: (after.map job).map .printJob

/-- It handles the jobs in front of the shutdown. -/
theorem handledJobs_of_messages {κ : Type*} [DecidableEq κ] {h : List (Event κ)} {s : State κ}
    (hr : Run State.step anyStep .start h s) (hfinished : s.worker = .finished)
    {before after : List String} (henqueued : enqueued h = messages before after) :
    (handledJobs h).map PrintJob.text = before := by
  rw [(State.run_queues hr).1.handled_eq hfinished, henqueued]
  unfold messages
  rw [jobsBefore_append]
  simp [jobsBefore, Function.comp_def, job]

end PrintServer

/-! ## Bend -/

namespace Bend

/-- `type Msg`. -/
inductive Msg where
  | printJob (text : String)
  | shutdown
  deriving DecidableEq, Repr

/-- `type ServerState`. -/
structure ServerState where
  count : ℕ
  deriving DecidableEq, Repr

/-- `handle`. -/
def handle : Msg → ServerState → ServerState
  | .printJob _, state => ⟨state.count + 1⟩
  | .shutdown, state => state

/-- `process_all`. -/
def processAll : List Msg → ServerState → ServerState
  | [], state => state
  | m :: msgs, state =>
      let newState := handle m state
      processAll msgs newState

/-- The list of a server that is told some jobs, to shut down, and more jobs. -/
def messages (before after : List String) : List Msg :=
  before.map .printJob ++ .shutdown :: after.map .printJob

/-- The loop goes on with the state that it has come to. -/
theorem processAll_append (msgs more : List Msg) (state : ServerState) :
    processAll (msgs ++ more) state = processAll more (processAll msgs state) := by
  induction msgs generalizing state with
  | nil => rfl
  | cons m msgs ih => exact ih (handle m state)

/-- Each job is counted. -/
theorem processAll_jobs (texts : List String) (state : ServerState) :
    processAll (texts.map .printJob) state = ⟨state.count + texts.length⟩ := by
  induction texts generalizing state with
  | nil => rfl
  | cons text texts ih =>
      rw [List.map_cons, processAll, ih, List.length_cons]
      exact congrArg ServerState.mk (Nat.add_right_comm state.count 1 _)

/-- **The shutdown is passed over**: the jobs after it are counted as well. -/
theorem processAll_messages (before after : List String) (state : ServerState) :
    processAll (messages before after) state =
      ⟨state.count + before.length + after.length⟩ := by
  rw [messages, processAll_append, processAll_jobs, processAll]
  exact processAll_jobs after _

end Bend

/-! ## Lua -/

namespace Lua

/-- Where the coroutine of the actor is: at the test of its loop, either because it has not been
resumed yet or because it has yielded, or at its end. -/
inductive Coroutine where
  | suspended
  | dead
  deriving DecidableEq, Repr

/-- `PrintServer`; the mailbox holds texts, as `tell` gives no `reply_to`. -/
structure PrintServer where
  mailbox : List String
  counter : ℕ
  running : Bool
  actor : Coroutine
  deriving DecidableEq, Repr

/-- `PrintServer.new`. -/
def new : PrintServer := ⟨[], 0, true, .suspended⟩

/-- A job that has been handled, and what has been printed. -/
structure Handled where
  text : String
  output : String
  deriving DecidableEq, Repr

/-- `PrintServer:run`, from the test of the loop to the next `yield` or to the end. -/
def run (self : PrintServer) : Option Handled × PrintServer :=
  if self.running then
    match self.mailbox with
    | [] => (none, self)
    | msg :: rest =>
        let counter := self.counter + 1
        (some ⟨msg, s!"[PrintServer] #{counter} printed: {msg}"⟩,
          { self with mailbox := rest, counter := counter })
  else (none, { self with actor := .dead })

/-- `coroutine.resume(self.actor)`. -/
def resume (self : PrintServer) : Option Handled × PrintServer :=
  match self.actor with
  | .suspended => run self
  | .dead => (none, self)

/-- A call from outside. -/
inductive Call where
  | tell (text : String)
  | step
  | stop
  deriving DecidableEq, Repr

/-- A call of a method, and what a job prints if one is handled. -/
def call (self : PrintServer) : Call → Option Handled × PrintServer
  | .tell text => (none, { self with mailbox := self.mailbox ++ [text] })
  | .step => resume self
  | .stop => resume { self with running := false }

/-- The texts that are told. -/
def told : List Call → List String
  | [] => []
  | .tell text :: calls => text :: told calls
  | _ :: calls => told calls

/-- The texts of the jobs that are handled. -/
def handled (self : PrintServer) (calls : List Call) : List String :=
  (Machine.results call self calls).filterMap fun result => result.map Handled.text

theorem handled_append (self : PrintServer) (calls more : List Call) :
    handled self (calls ++ more) =
      handled self calls ++ handled (Machine.after call self calls) more := by
  unfold handled
  rw [Machine.results_append, List.filterMap_append]

/-- Until it is stopped, a server handles what it is told, except for what is in its mailbox. -/
theorem handled_running (mailbox : List String) (counter : ℕ) {calls : List Call}
    (h : .stop ∉ calls) :
    ∃ left counter',
      Machine.after call ⟨mailbox, counter, true, .suspended⟩ calls =
        ⟨left, counter', true, .suspended⟩ ∧
      mailbox ++ told calls = handled ⟨mailbox, counter, true, .suspended⟩ calls ++ left := by
  induction calls generalizing mailbox counter with
  | nil => exact ⟨mailbox, counter, rfl, List.append_nil mailbox⟩
  | cons c calls ih =>
      have hrest : .stop ∉ calls := fun hmem => h (List.mem_cons_of_mem _ hmem)
      cases c with
      | stop => exact absurd List.mem_cons_self h
      | tell text =>
          obtain ⟨left, counter', hafter, htold⟩ :=
            ih (mailbox ++ [text]) counter hrest
          refine ⟨left, counter', hafter, ?_⟩
          rw [List.append_assoc] at htold
          exact htold
      | step =>
          cases mailbox with
          | nil => exact ih [] counter hrest
          | cons msg rest =>
              obtain ⟨left, counter', hafter, htold⟩ :=
                ih rest (counter + 1) hrest
              exact ⟨left, counter', hafter, congrArg (msg :: ·) htold⟩

/-- A coroutine that has ended handles nothing. -/
theorem handled_dead {self : PrintServer} (h : self.actor = .dead) (calls : List Call) :
    handled self calls = [] := by
  induction calls generalizing self with
  | nil => rfl
  | cons c calls ih =>
      have hstep : (call self c).1 = none ∧ (call self c).2.actor = .dead := by
        cases c with
        | tell text => exact ⟨rfl, h⟩
        | step => simp [call, resume, h]
        | stop => simp [call, resume, h]
      have hrest := ih hstep.2
      unfold handled at hrest ⊢
      rw [Machine.results, List.filterMap_cons, hstep.1]
      exact hrest

/-- **A stop leaves the mailbox as it is.** -/
theorem handled_stop {calls : List Call} (h : .stop ∉ calls) (more : List Call) :
    told calls =
      handled new (calls ++ .stop :: more) ++ (Machine.after call new calls).mailbox := by
  obtain ⟨left, counter, hafter, htold⟩ := handled_running [] 0 h
  have hafter' : Machine.after call new calls = ⟨left, counter, true, .suspended⟩ := hafter
  have hdead : handled ⟨left, counter, false, .dead⟩ more = [] := handled_dead rfl more
  have hnone : handled ⟨left, counter, true, .suspended⟩ (.stop :: more) = [] := hdead
  rw [handled_append, hafter', hnone, List.append_nil]
  exact htold

end Lua

/-! ## Kotlin -/

namespace Kotlin

/-- Where `process` is. -/
inductive Process where
  /-- It has been launched. -/
  | launched
  /-- At the test of the loop. -/
  | looping
  /-- In `receiveCatching`. -/
  | receiving
  /-- It has counted the message, and is in `delay`. -/
  | handling (msg : String)
  | finished
  deriving DecidableEq, Repr

/-- Whoever calls `tell` and, once, `stop`. -/
inductive Client where
  | telling
  /-- In `stop`, before the channel is closed. -/
  | stopping
  | stopped
  deriving DecidableEq, Repr

/-- `PrintServer`, with its channel. -/
structure State where
  mailbox : List String
  closed : Bool
  counter : ℕ
  running : Bool
  process : Process
  client : Client
  deriving DecidableEq, Repr

/-- A new server, the coroutine of which has been launched. -/
def start : State := ⟨[], false, 0, true, .launched, .telling⟩

/-- The calls, and the steps of the coroutine. -/
inductive Action where
  | tell (text : String)
  /-- `running = false`. -/
  | stop
  /-- `mailbox.close()`. -/
  | close
  | work
  deriving DecidableEq, Repr

/-- What a step shows. -/
inductive Event where
  | told (text : String)
  | stops
  | closes
  | printed (text output : String)
  | internal
  deriving DecidableEq, Repr

/-- `process`. -/
def work (s : State) : Option (Event × State) :=
  match s.process with
  | .launched => some (.internal, { s with process := .looping })
  | .looping =>
      if s.running then some (.internal, { s with process := .receiving })
      else some (.internal, { s with process := .finished })
  | .receiving =>
      match s.mailbox with
      | msg :: rest =>
          some (.internal,
            { s with mailbox := rest, counter := s.counter + 1, process := .handling msg })
      | [] =>
          -- `result.isClosed`
          if s.closed then some (.internal, { s with process := .finished }) else none
  | .handling msg =>
      some (.printed msg s!"[PrintServer] #{s.counter} printed: {msg}",
        { s with process := .looping })
  | .finished => none

/-- A step of the server or of its client. -/
def step (s : State) : Action → Option (Event × State)
  | .tell text =>
      match s.client with
      | .stopping => none
      -- `trySend` fails on a closed channel
      | _ => some (.told text, if s.closed then s else { s with mailbox := s.mailbox ++ [text] })
  | .stop =>
      match s.client with
      | .telling => some (.stops, { s with running := false, client := .stopping })
      | _ => none
  | .close =>
      match s.client with
      | .stopping => some (.closes, { s with closed := true, client := .stopped })
      | _ => none
  | .work => work s

/-- The text that is told. -/
def Event.toldText : Event → Option String
  | told text => some text
  | _ => none

/-- The text that is printed. -/
def Event.printedText : Event → Option String
  | printed text _ => some text
  | _ => none

/-- What the server has been told. -/
def told (h : List Event) : List String := h.filterMap Event.toldText

/-- The jobs that it has handled. -/
def handled (h : List Event) : List String := h.filterMap Event.printedText

theorem told_append (h : List Event) (e : Event) :
    told (h ++ [e]) = told h ++ e.toldText.toList := by
  unfold told
  rw [List.filterMap_append]
  cases he : e.toldText <;> simp [he]

theorem handled_append (h : List Event) (e : Event) :
    handled (h ++ [e]) = handled h ++ e.printedText.toList := by
  unfold handled
  rw [List.filterMap_append]
  cases he : e.printedText <;> simp [he]

/-- What the server has taken and not yet handled. -/
def Process.inHand : Process → List String
  | handling msg => [msg]
  | _ => []

/-- What a server takes that is waiting for a message. -/
def taking (s : State) : List String :=
  if s.process = .receiving then s.mailbox.take 1 else []

/-- What a server that has been stopped still handles. -/
def due (s : State) : List String := s.process.inHand ++ taking s

/-- The moves of `process`: what it has in hand and in the mailbox is what it handles and what is
left, and after a stop the same holds of what is still due. -/
theorem work_spec {s s' : State} {e : Event} (h : work s = some (e, s')) :
    (s'.closed = s.closed ∧ s'.running = s.running ∧ s'.client = s.client ∧ e.toldText = none) ∧
      s.process.inHand ++ s.mailbox = e.printedText.toList ++ s'.process.inHand ++ s'.mailbox ∧
      (s.running = false → due s = e.printedText.toList ++ due s') := by
  unfold work at h
  split at h
  · rename_i hp
    cases h
    refine ⟨⟨rfl, rfl, rfl, rfl⟩, ?_, fun _ => ?_⟩
    · simp [hp, Process.inHand, Event.printedText]
    · simp [due, taking, hp, Process.inHand, Event.printedText]
  · rename_i hp
    split at h
    · rename_i hrunning
      cases h
      refine ⟨⟨rfl, rfl, rfl, rfl⟩, ?_, fun hnot => ?_⟩
      · simp [hp, Process.inHand, Event.printedText]
      · rw [hrunning] at hnot
        cases hnot
    · cases h
      refine ⟨⟨rfl, rfl, rfl, rfl⟩, ?_, fun _ => ?_⟩
      · simp [hp, Process.inHand, Event.printedText]
      · simp [due, taking, hp, Process.inHand, Event.printedText]
  · rename_i hp
    split at h
    · rename_i msg rest hm
      cases h
      refine ⟨⟨rfl, rfl, rfl, rfl⟩, ?_, fun _ => ?_⟩
      · simp [hp, hm, Process.inHand, Event.printedText]
      · simp [due, taking, hp, hm, Process.inHand, Event.printedText]
    · rename_i hm
      split at h
      · cases h
        refine ⟨⟨rfl, rfl, rfl, rfl⟩, ?_, fun _ => ?_⟩
        · simp [hp, Process.inHand, Event.printedText]
        · simp [due, taking, hp, hm, Process.inHand, Event.printedText]
      · cases h
  · rename_i msg hp
    cases h
    refine ⟨⟨rfl, rfl, rfl, rfl⟩, ?_, fun _ => ?_⟩
    · simp [hp, Process.inHand, Event.printedText]
    · simp [due, taking, hp, Process.inHand, Event.printedText]
  · cases h

/-- The moves. -/
theorem step_cases {s s' : State} {a : Action} {e : Event} (h : step s a = some (e, s')) :
    (∃ text, s.client ≠ .stopping ∧ e = .told text ∧
        s' = if s.closed then s else { s with mailbox := s.mailbox ++ [text] }) ∨
      (s.client = .telling ∧ e = .stops ∧ s' = { s with running := false, client := .stopping }) ∨
      (s.client = .stopping ∧ e = .closes ∧ s' = { s with closed := true, client := .stopped }) ∨
      work s = some (e, s') := by
  cases a with
  | tell text =>
      rw [step] at h
      split at h
      · cases h
      · rename_i hclient
        cases h
        exact .inl ⟨text, hclient, rfl, rfl⟩
  | stop =>
      rw [step] at h
      split at h
      · rename_i hclient
        cases h
        exact .inr (.inl ⟨hclient, rfl, rfl⟩)
      · cases h
  | close =>
      rw [step] at h
      split at h
      · rename_i hclient
        cases h
        exact .inr (.inr (.inl ⟨hclient, rfl, rfl⟩))
      · cases h
  | work => exact .inr (.inr (.inr h))

/-- **Before the stop** the channel is open, and every job told is handled, in hand or in it. -/
theorem run_telling {h : List Event} {s : State} (hr : Run step anyStep start h s) :
    s.client = .telling →
      s.closed = false ∧ told h = handled h ++ (s.process.inHand ++ s.mailbox) := by
  refine Run.invariant (fun h s => s.client = .telling →
    s.closed = false ∧ told h = handled h ++ (s.process.inHand ++ s.mailbox))
    (fun _ => ⟨rfl, rfl⟩) ?_ hr
  intro h s a e s' hinv _ hs hclient
  rw [told_append, handled_append]
  obtain ⟨text, -, rfl, rfl⟩ | ⟨-, -, rfl⟩ | ⟨-, -, rfl⟩ | hwork := step_cases hs
  · by_cases hclosed : s.closed = true
    · rw [if_pos hclosed] at hclient
      rw [(hinv hclient).1] at hclosed
      cases hclosed
    · rw [if_neg hclosed] at hclient ⊢
      obtain ⟨hopen, htold⟩ := hinv hclient
      refine ⟨hopen, ?_⟩
      rw [htold]
      simp [Event.toldText, Event.printedText]
  · cases hclient
  · cases hclient
  · obtain ⟨⟨hclosed, -, hsame, htold⟩, hflow, -⟩ := work_spec hwork
    rw [hsame] at hclient
    obtain ⟨hopen, hinv⟩ := hinv hclient
    refine ⟨hclosed.trans hopen, ?_⟩
    rw [htold, hinv, hflow]
    simp

/-- **After the stop** nothing more is due. -/
theorem run_stopping {s₂ s : State} {h : List Event} (hr : Run step anyStep s₂ h s)
    (hrunning : s₂.running = false) (hclient : s₂.client = .stopping) :
    handled h ++ due s = due s₂ := by
  have hinv : s.running = false ∧ (s.client = .stopping ∨ s.client = .stopped ∧ s.closed = true) ∧
      handled h ++ due s = due s₂ := by
    refine Run.invariant (fun h s => s.running = false ∧
      (s.client = .stopping ∨ s.client = .stopped ∧ s.closed = true) ∧
        handled h ++ due s = due s₂) ⟨hrunning, .inl hclient, rfl⟩ ?_ hr
    rintro h s a e s' ⟨hnot, hphase, hdue⟩ - hs
    rw [handled_append]
    obtain ⟨text, hne, rfl, rfl⟩ | ⟨htelling, -, -⟩ | ⟨-, rfl, rfl⟩ | hwork := step_cases hs
    · obtain hstopping | ⟨hstopped, hclosed⟩ := hphase
      · exact absurd hstopping hne
      · rw [if_pos hclosed]
        refine ⟨hnot, .inr ⟨hstopped, hclosed⟩, ?_⟩
        rw [← hdue]
        simp [Event.printedText]
    · obtain hstopping | ⟨hstopped, -⟩ := hphase
      · rw [htelling] at hstopping
        cases hstopping
      · rw [htelling] at hstopped
        cases hstopped
    · refine ⟨hnot, .inr ⟨rfl, rfl⟩, ?_⟩
      rw [← hdue]
      simp [Event.printedText, due, taking]
    · obtain ⟨⟨hclosed, hsame, hsame', -⟩, -, hflow⟩ := work_spec hwork
      rw [hsame, hsame', hclosed]
      refine ⟨hnot, hphase, ?_⟩
      rw [← hdue, hflow hnot, List.append_assoc]
  exact hinv.2.2

/-- **A stop leaves the channel as it is**, but for a message that the server waits for. -/
theorem run_stopped {h₁ h₂ : List Event} {s₁ s₂ s : State} {e : Event}
    (hr₁ : Run step anyStep start h₁ s₁) (hs : step s₁ .stop = some (e, s₂))
    (hr₂ : Run step anyStep s₂ h₂ s) (hfinished : s.process = .finished) :
    handled (h₁ ++ e :: h₂) = told h₁ ↔
      s₁.mailbox.length ≤ if s₁.process = .receiving then 1 else 0 := by
  rw [step] at hs
  split at hs
  · rename_i hclient
    cases hs
    have hdue := run_stopping hr₂ rfl rfl
    have hnone : due s = [] := by
      unfold due taking
      rw [hfinished]
      rfl
    have htold := (run_telling hr₁ hclient).2
    have hall : handled (h₁ ++ .stops :: h₂) = handled h₁ ++ due s₁ := by
      rw [hnone, List.append_nil] at hdue
      unfold handled at hdue ⊢
      rw [List.filterMap_append, List.filterMap_cons]
      exact congrArg (List.filterMap Event.printedText h₁ ++ ·) hdue
    rw [hall, htold, List.append_cancel_left_eq]
    unfold due taking
    rw [List.append_cancel_left_eq]
    split
    · exact List.take_eq_self_iff _
    · rw [Nat.le_zero, List.length_eq_zero_iff]
      exact eq_comm
  · cases hs

end Kotlin

/-! ## Which of them agree -/

/-- **When the ports handle the jobs that Python does**, that is, those told before the shutdown:
Bend's, of which all that can be seen is how many it has counted, if there is none after it; Lua's
if the mailbox is empty when `stop` is called; Kotlin's if the channel is, or holds one message that
the server is waiting for. -/
theorem ports_agree_iff (before after : List String) :
    (∀ {κ : Type} [DecidableEq κ] (h : List (PrintServer.Event κ)) (s : PrintServer.State κ),
      Run PrintServer.State.step anyStep .start h s → s.worker = .finished →
        PrintServer.enqueued h = PrintServer.messages before after →
          (PrintServer.handledJobs h).map PrintServer.PrintJob.text = before) ∧
    (∀ state, (Bend.processAll (Bend.messages before after) state).count =
      state.count + before.length ↔ after = []) ∧
    (∀ calls more, .stop ∉ calls → Lua.told calls = before → Lua.told more = after →
      (Lua.handled Lua.new (calls ++ .stop :: more) = before ↔
        (Machine.after Lua.call Lua.new calls).mailbox = [])) ∧
    ∀ h₁ s₁ e s₂ h₂ s, Run Kotlin.step anyStep Kotlin.start h₁ s₁ →
      Kotlin.step s₁ .stop = some (e, s₂) → Run Kotlin.step anyStep s₂ h₂ s →
        s.process = .finished → Kotlin.told h₁ = before → Kotlin.told h₂ = after →
          (Kotlin.handled (h₁ ++ e :: h₂) = before ↔
            s₁.mailbox.length ≤ if s₁.process = .receiving then 1 else 0) := by
  refine ⟨fun h s hr hfinished henqueued =>
    PrintServer.handledJobs_of_messages hr hfinished henqueued, ?_, ?_, ?_⟩
  · intro state
    rw [Bend.processAll_messages, Nat.add_eq_left, List.length_eq_zero_iff]
  · intro calls more hcalls htold _
    have hstop := Lua.handled_stop hcalls more
    rw [← htold, hstop]
    exact List.self_eq_append_right
  · intro h₁ s₁ e s₂ h₂ s hr₁ hs hr₂ hfinished htold _
    rw [← htold]
    exact Kotlin.run_stopped hr₁ hs hr₂ hfinished

/-- A job, a shutdown, a job: Bend counts both jobs, and Lua and Kotlin, if they are stopped before
they have run, none. -/
theorem ports_differ :
    (Bend.processAll (Bend.messages ["a"] ["b"]) ⟨0⟩).count ≠ ["a"].length ∧
      Lua.handled Lua.new ([.tell "a"] ++ .stop :: [.tell "b", .step]) ≠ ["a"] ∧
      ∃ h s, Run Kotlin.step anyStep Kotlin.start h s ∧ s.process = .finished ∧
        h = [.told "a", .stops, .closes, .told "b", .internal, .internal] ∧
        Kotlin.handled h ≠ ["a"] := by
  refine ⟨by decide, by decide, _, _, run_of_replay Kotlin.step
    [.tell "a", .stop, .close, .tell "b", .work, .work] rfl, rfl, rfl, by decide⟩

end Actor
