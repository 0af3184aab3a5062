/-
# A print server (`python/actor/print_server.py`)

The thread of the server takes the messages of its mailbox one after the other, until it takes a
`Shutdown`.  Clients call `tell`, `ask` and `stop` in any order: an `ask` waits on a reply queue of
its own, and a `stop` for the end of the server's thread.  `run_served` : the jobs of the mailbox up
to the first `Shutdown` are handled in order, and each `ask` among them gets its reply.
-/
import Cocurrency.Lib.Run
import Mathlib.Data.List.Nodup
import Mathlib.Data.Nat.Notation
import Mathlib.Data.String.Basic
import Mathlib.Logic.Function.Basic

namespace Actor

namespace PrintServer

/-! ## Messages -/

/-- `PrintJob`; the reply queues are numbered. -/
structure PrintJob where
  text : String
  replyTo : Option ℕ
  deriving DecidableEq, Repr

/-- `PrintJob` or `Shutdown`. -/
inductive Message where
  | printJob (job : PrintJob)
  | shutdown
  deriving DecidableEq, Repr

/-- Where the reply is to go. -/
def Message.replyTo : Message → Option ℕ
  | printJob job => job.replyTo
  | shutdown => none

/-- The line that is printed, and the reply. -/
def output (text : String) : String := s!"[PrintServer] printed: {text}"

/-! ## Threads -/

/-- Where the thread of the server is in `_run` and `_handle`. -/
inductive Worker where
  /-- At the condition of the loop. -/
  | looping
  /-- In `get`. -/
  | waiting
  | handling (job : PrintJob)
  /-- The output has been printed. -/
  | printed (job : PrintJob)
  | finished
  deriving DecidableEq, Repr

/-- Where a client is in its calls. -/
inductive Client where
  | idle
  /-- In `ask`, waiting on a reply queue. -/
  | asking (queue : ℕ)
  /-- In `stop`, in `join`. -/
  | joining
  deriving DecidableEq, Repr

/-- The server, its clients, and the reply queues that have been made. -/
structure State (κ : Type*) where
  mailbox : List Message
  running : Bool
  worker : Worker
  client : κ → Client
  reply : ℕ → List String
  queues : ℕ

/-- What happens next: a client calls a function, or goes on in one, or the server does. -/
inductive Action (κ : Type*) where
  | tell (c : κ) (text : String)
  | ask (c : κ) (text : String)
  | stop (c : κ)
  | receive (c : κ)
  | join (c : κ)
  | work

/-- What a step shows. -/
inductive Event (κ : Type*) where
  | put (c : κ) (m : Message)
  | answered (c : κ) (queue : ℕ) (reply : String)
  | stopped (c : κ)
  | prints (line : String)
  | handled (job : PrintJob)
  | internal
  deriving DecidableEq

namespace State

variable {κ : Type*}

/-- After `start`. -/
def start : State κ := ⟨[], true, .looping, fun _ => .idle, fun _ => [], 0⟩

variable [DecidableEq κ]

/-- The client goes on. -/
def setClient (s : State κ) (c : κ) (now : Client) : State κ :=
  { s with client := Function.update s.client c now }

/-- `_mailbox.put`. -/
def put (s : State κ) (m : Message) : State κ := { s with mailbox := s.mailbox ++ [m] }

/-- `_run`, with `_handle`. -/
def work (s : State κ) : Option (Event κ × State κ) :=
  match s.worker with
  | .looping =>
      if s.running then some (.internal, { s with worker := .waiting })
      else some (.internal, { s with worker := .finished })
  | .waiting =>
      match s.mailbox with
      | [] => none
      | .printJob job :: rest =>
          some (.internal, { s with mailbox := rest, worker := .handling job })
      | .shutdown :: rest =>
          some (.internal, { s with mailbox := rest, running := false, worker := .finished })
  | .handling job =>
      let line := output job.text
      some (.prints s!"  {line}", { s with worker := .printed job })
  | .printed job =>
      match job.replyTo with
      | none => some (.handled job, { s with worker := .looping })
      | some q =>
          some (.handled job,
            { s with worker := .looping,
                     reply := Function.update s.reply q (s.reply q ++ [output job.text]) })
  | .finished => none

/-- A step of the server or of a client. -/
def step (s : State κ) : Action κ → Option (Event κ × State κ)
  | .tell c text =>
      match s.client c with
      | .idle => some (.put c (.printJob ⟨text, none⟩), s.put (.printJob ⟨text, none⟩))
      | _ => none
  | .ask c text =>
      match s.client c with
      | .idle =>
          some (.put c (.printJob ⟨text, some s.queues⟩),
            ({ s with queues := s.queues + 1 }.put (.printJob ⟨text, some s.queues⟩)).setClient c
              (.asking s.queues))
      | _ => none
  | .stop c =>
      match s.client c with
      | .idle => some (.put c .shutdown, (s.put .shutdown).setClient c .joining)
      | _ => none
  | .receive c =>
      match s.client c with
      | .asking q =>
          match s.reply q with
          | [] => none
          | reply :: rest =>
              some (.answered c q reply,
                { s with reply := Function.update s.reply q rest }.setClient c .idle)
      | _ => none
  | .join c =>
      if s.client c = .joining ∧ s.worker = .finished then
        some (.stopped c, s.setClient c .idle)
      else none
  | .work => s.work

/-! ## What a step does -/

/-- What the steps do, one by one. -/
inductive Effect (s : State κ) : Action κ → Event κ → State κ → Prop
  | tells (c : κ) (text : String) : s.client c = .idle →
      Effect s (.tell c text) (.put c (.printJob ⟨text, none⟩)) (s.put (.printJob ⟨text, none⟩))
  | asks (c : κ) (text : String) : s.client c = .idle →
      Effect s (.ask c text) (.put c (.printJob ⟨text, some s.queues⟩))
        (({ s with queues := s.queues + 1 }.put (.printJob ⟨text, some s.queues⟩)).setClient c
          (.asking s.queues))
  | stops (c : κ) : s.client c = .idle →
      Effect s (.stop c) (.put c .shutdown) ((s.put .shutdown).setClient c .joining)
  | receives (c : κ) (q : ℕ) (reply : String) (rest : List String) : s.client c = .asking q →
      s.reply q = reply :: rest →
      Effect s (.receive c) (.answered c q reply)
        ({ s with reply := Function.update s.reply q rest }.setClient c .idle)
  | joins (c : κ) : s.client c = .joining → s.worker = .finished →
      Effect s (.join c) (.stopped c) (s.setClient c .idle)
  | loops : s.worker = .looping → s.running = true →
      Effect s .work .internal { s with worker := .waiting }
  | ends : s.worker = .looping → s.running = false →
      Effect s .work .internal { s with worker := .finished }
  | takes (job : PrintJob) (rest : List Message) : s.worker = .waiting →
      s.mailbox = .printJob job :: rest →
      Effect s .work .internal { s with mailbox := rest, worker := .handling job }
  | shutsDown (rest : List Message) : s.worker = .waiting → s.mailbox = .shutdown :: rest →
      Effect s .work .internal
        { s with mailbox := rest, running := false, worker := .finished }
  | prints (job : PrintJob) (line : String) : s.worker = .handling job →
      Effect s .work (.prints line) { s with worker := .printed job }
  | handles (job : PrintJob) : s.worker = .printed job → job.replyTo = none →
      Effect s .work (.handled job) { s with worker := .looping }
  | replies (job : PrintJob) (q : ℕ) : s.worker = .printed job → job.replyTo = some q →
      Effect s .work (.handled job)
        { s with worker := .looping,
                 reply := Function.update s.reply q (s.reply q ++ [output job.text]) }

variable {s s' : State κ} {a : Action κ} {e : Event κ}

/-- What a step of the server's thread does. -/
theorem effect_work (hs : s.work = some (e, s')) : Effect s .work e s' := by
  rw [work] at hs
  split at hs
  · next hworker =>
    split at hs
    · next hrunning =>
      cases hs
      exact .loops hworker hrunning
    · next hnot =>
      cases hs
      exact .ends hworker (Bool.eq_false_iff.mpr hnot)
  · next hworker =>
    split at hs
    · cases hs
    · next job rest hmailbox =>
      cases hs
      exact .takes job rest hworker hmailbox
    · next rest hmailbox =>
      cases hs
      exact .shutsDown rest hworker hmailbox
  · next job hworker =>
    cases hs
    exact .prints job _ hworker
  · next job hworker =>
    split at hs
    · next hnone =>
      cases hs
      exact .handles job hworker hnone
    · next q hsome =>
      cases hs
      exact .replies job q hworker hsome
  · cases hs

/-- What a step does. -/
theorem effect_step (hs : s.step a = some (e, s')) : Effect s a e s' := by
  cases a with
  | tell c text =>
      rw [step] at hs
      split at hs
      · next hidle =>
        cases hs
        exact .tells c text hidle
      · cases hs
  | ask c text =>
      rw [step] at hs
      split at hs
      · next hidle =>
        cases hs
        exact .asks c text hidle
      · cases hs
  | stop c =>
      rw [step] at hs
      split at hs
      · next hidle =>
        cases hs
        exact .stops c hidle
      · cases hs
  | receive c =>
      rw [step] at hs
      split at hs
      · next q hasking =>
        split at hs
        · cases hs
        · next reply rest hreply =>
          cases hs
          exact .receives c q reply rest hasking hreply
      · cases hs
  | join c =>
      rw [step] at hs
      split at hs
      · next hjoin =>
        cases hs
        exact .joins c hjoin.1 hjoin.2
      · cases hs
  | work => exact effect_work hs

end State

/-! ## Histories -/

section Histories

variable {κ : Type*}

/-- The message that is put into the mailbox. -/
def Event.message : Event κ → Option Message
  | put _ m => some m
  | _ => none

/-- The job that has been handled. -/
def Event.job : Event κ → Option PrintJob
  | handled job => some job
  | _ => none

/-- The reply that is taken from queue `q`. -/
def Event.replyFrom (q : ℕ) : Event κ → Option String
  | answered _ queue reply => if queue = q then some reply else none
  | _ => none

/-- What has been put into the mailbox. -/
def enqueued (h : List (Event κ)) : List Message := h.filterMap Event.message

/-- The jobs that have been handled. -/
def handledJobs (h : List (Event κ)) : List PrintJob := h.filterMap Event.job

/-- What clients have taken from reply queue `q`. -/
def received (q : ℕ) (h : List (Event κ)) : List String := h.filterMap (Event.replyFrom q)

/-- The jobs in front of the first `Shutdown`. -/
def jobsBefore : List Message → List PrintJob
  | .printJob job :: ms => job :: jobsBefore ms
  | _ => []

/-- What a job puts into reply queue `q`. -/
def PrintJob.replyOn (q : ℕ) (job : PrintJob) : Option String :=
  if job.replyTo = some q then some (output job.text) else none

variable {h : List (Event κ)} {e : Event κ} {q : ℕ} {ms : List Message}

/-- A message more. -/
theorem enqueued_put (c : κ) (m : Message) : enqueued (h ++ [.put c m]) = enqueued h ++ [m] := by
  simp [enqueued, List.filterMap_append, Event.message]

/-- An event that puts nothing. -/
theorem enqueued_of_none (hnone : e.message = none) : enqueued (h ++ [e]) = enqueued h := by
  simp [enqueued, List.filterMap_append, hnone]

/-- A job more. -/
theorem handledJobs_handled (job : PrintJob) :
    handledJobs (h ++ [.handled job]) = handledJobs h ++ [job] := by
  simp [handledJobs, List.filterMap_append, Event.job]

/-- An event that handles nothing. -/
theorem handledJobs_of_none (hnone : e.job = none) : handledJobs (h ++ [e]) = handledJobs h := by
  simp [handledJobs, List.filterMap_append, hnone]

/-- An event that takes no reply from `q`. -/
theorem received_of_none (hnone : e.replyFrom q = none) : received q (h ++ [e]) = received q h := by
  simp [received, List.filterMap_append, hnone]

/-- What a client has put is in the mailbox's history. -/
theorem mem_enqueued {c : κ} {m : Message} (hmem : Event.put c m ∈ h) : m ∈ enqueued h :=
  List.mem_filterMap.mpr ⟨_, hmem, rfl⟩

/-- Jobs before whatever follows. -/
theorem jobsBefore_append (jobs : List PrintJob) :
    jobsBefore (jobs.map .printJob ++ ms) = jobs ++ jobsBefore ms := by
  induction jobs with
  | nil => rfl
  | cons job jobs ih =>
      rw [List.map_cons, List.cons_append, jobsBefore, ih]
      rfl

/-- Where no two elements have the same image, that of the first is not that of a later one. -/
theorem ne_some_of_nodup {α β : Type*} {f : α → Option β} {first : α} {xs : List α} {y : β}
    (hnodup : ((first :: xs).filterMap f).Nodup) (hfirst : f first = some y) :
    ∀ x ∈ xs, f x ≠ some y := by
  intro x hmem hx
  rw [List.filterMap_cons_some hfirst, List.nodup_cons] at hnodup
  exact hnodup.1 (List.mem_filterMap.mpr ⟨x, hmem, hx⟩)

/-- Two messages with one reply queue are the same. -/
theorem eq_of_replyTo (hnodup : (ms.filterMap Message.replyTo).Nodup) {m m' : Message}
    (hm : m ∈ ms) (hm' : m' ∈ ms) (hq : m.replyTo = some q) (hq' : m'.replyTo = some q) :
    m = m' := by
  induction ms with
  | nil => exact absurd hm List.not_mem_nil
  | cons first ms ih =>
      have hrest : (ms.filterMap Message.replyTo).Nodup :=
        hnodup.sublist ((List.sublist_cons_self first ms).filterMap _)
      rcases List.mem_cons.mp hm with rfl | hmem
      · rcases List.mem_cons.mp hm' with rfl | hmem'
        · rfl
        · exact absurd hq' (ne_some_of_nodup hnodup hq m' hmem')
      · rcases List.mem_cons.mp hm' with rfl | hmem'
        · exact absurd hq (ne_some_of_nodup hnodup hq' m hmem)
        · exact ih hrest hmem hmem'

end Histories

/-! ## The mailbox -/

/-- What the server has taken and not yet handled. -/
def Worker.inHand : Worker → List Message
  | handling job | printed job => [.printJob job]
  | finished => [.shutdown]
  | _ => []

namespace State

variable {κ : Type*} {h : List (Event κ)} {s s' : State κ} {a : Action κ} {e : Event κ}

/-- Messages are handled in the order in which they have been put. -/
structure Flow (h : List (Event κ)) (s : State κ) : Prop where
  order : enqueued h = (handledJobs h).map .printJob ++ s.worker.inHand ++ s.mailbox
  running : s.worker ≠ .finished → s.running = true

/-- At the start the mailbox is empty. -/
theorem Flow.start : Flow (κ := κ) [] start := ⟨rfl, fun _ => rfl⟩

variable [DecidableEq κ]

omit [DecidableEq κ] in
/-- A message goes to the end of the mailbox. -/
theorem Flow.put (hf : Flow h s) (c : κ) {m : Message} (hmailbox : s'.mailbox = s.mailbox ++ [m])
    (hworker : s'.worker = s.worker) (hrunning : s'.running = s.running) :
    Flow (h ++ [.put c m]) s' := by
  refine ⟨?_, by rw [hworker, hrunning]; exact hf.running⟩
  rw [enqueued_put, handledJobs_of_none rfl, hf.order, hmailbox, hworker]
  exact List.append_assoc _ _ _

omit [DecidableEq κ] in
/-- Neither the mailbox nor what the server has in hand changes. -/
theorem Flow.same (hf : Flow h s) (hmessage : e.message = none) (hjob : e.job = none)
    (hmailbox : s'.mailbox = s.mailbox) (hworker : s'.worker.inHand = s.worker.inHand)
    (hrunning : s'.worker ≠ .finished → s'.running = true) : Flow (h ++ [e]) s' := by
  refine ⟨?_, hrunning⟩
  rw [enqueued_of_none hmessage, handledJobs_of_none hjob, hf.order, hmailbox, hworker]

/-- **The step lemma** for the mailbox. -/
theorem Flow.effect (hf : Flow h s) (heffect : Effect s a e s') : Flow (h ++ [e]) s' := by
  have horder := hf.order
  cases heffect with
  | tells c text hidle => exact hf.put c rfl rfl rfl
  | asks c text hidle => exact hf.put c rfl rfl rfl
  | stops c hidle => exact hf.put c rfl rfl rfl
  | receives c q reply rest hasking hreply => exact hf.same rfl rfl rfl rfl hf.running
  | joins c hjoining hfinished => exact hf.same rfl rfl rfl rfl hf.running
  | loops hworker hrunning =>
      exact hf.same rfl rfl rfl (by rw [hworker]; rfl) fun _ => hrunning
  | ends hworker hnot =>
      have hrunning := hf.running (by rw [hworker]; decide)
      rw [hnot] at hrunning
      cases hrunning
  | takes job rest hworker hmailbox =>
      refine ⟨?_, fun _ => hf.running (by rw [hworker]; decide)⟩
      rw [enqueued_of_none rfl, handledJobs_of_none rfl, horder, hworker, hmailbox]
      simp [Worker.inHand]
  | shutsDown rest hworker hmailbox =>
      refine ⟨?_, fun hne => absurd rfl hne⟩
      rw [enqueued_of_none rfl, handledJobs_of_none rfl, horder, hworker, hmailbox]
      simp [Worker.inHand]
  | prints job line hworker =>
      exact hf.same rfl rfl rfl (by rw [hworker]; rfl) fun _ =>
        hf.running (by rw [hworker]; exact Worker.noConfusion)
  | handles job hworker hnone =>
      refine ⟨?_, fun _ => hf.running (by rw [hworker]; exact Worker.noConfusion)⟩
      rw [enqueued_of_none rfl, handledJobs_handled, horder, hworker]
      simp [Worker.inHand]
  | replies job q hworker hsome =>
      refine ⟨?_, fun _ => hf.running (by rw [hworker]; exact Worker.noConfusion)⟩
      rw [enqueued_of_none rfl, handledJobs_handled, horder, hworker]
      simp [Worker.inHand]

/-! ## The reply queues -/

/-- Each reply queue is that of one `ask`; what has been in it are the replies of its jobs that have
been handled. -/
structure Queues (h : List (Event κ)) (s : State κ) : Prop where
  fresh : ∀ q ∈ (enqueued h).filterMap Message.replyTo, q < s.queues
  nodup : ((enqueued h).filterMap Message.replyTo).Nodup
  replies : ∀ q, received q h ++ s.reply q = (handledJobs h).filterMap (PrintJob.replyOn q)
  asking : ∀ c q, s.client c = .asking q →
    received q h = [] ∧ ∃ text, Event.put c (.printJob ⟨text, some q⟩) ∈ h
  own : ∀ c c' q, s.client c = .asking q → s.client c' = .asking q → c = c'
  answered : ∀ c q reply, Event.answered c q reply ∈ h →
    ∃ text, Event.put c (.printJob ⟨text, some q⟩) ∈ h ∧ reply = output text

omit [DecidableEq κ] in
/-- At the start there are no reply queues. -/
theorem Queues.start : Queues (κ := κ) [] start :=
  ⟨fun _ hq => absurd hq List.not_mem_nil, List.nodup_nil, fun _ => rfl,
    fun _ _ h => Client.noConfusion h, fun _ _ _ h => Client.noConfusion h,
    fun _ _ _ h => absurd h List.not_mem_nil⟩

omit [DecidableEq κ] in
/-- The queue of an `ask` has been made. -/
theorem Queues.lt (hq : Queues h s) {c : κ} {text : String} {q : ℕ}
    (hmem : Event.put c (.printJob ⟨text, some q⟩) ∈ h) : q < s.queues :=
  hq.fresh q (List.mem_filterMap.mpr ⟨_, mem_enqueued hmem, rfl⟩)

omit [DecidableEq κ] in
/-- No queue is made, and nothing is taken from one. -/
theorem Queues.same (hq : Queues h s) (hmessage : e.message.bind Message.replyTo = none)
    (hreply : ∀ q, e.replyFrom q = none) (hqueues : s'.queues = s.queues)
    (hreplies : ∀ q, received q h ++ s'.reply q =
      (handledJobs (h ++ [e])).filterMap (PrintJob.replyOn q))
    (hclient : ∀ c q, s'.client c = .asking q → s.client c = .asking q) :
    Queues (h ++ [e]) s' := by
  have hsame : (enqueued (h ++ [e])).filterMap Message.replyTo =
      (enqueued h).filterMap Message.replyTo := by
    rw [enqueued, List.filterMap_filterMap, List.filterMap_append, enqueued,
      List.filterMap_filterMap]
    simp [hmessage]
  refine ⟨?_, ?_, fun q => ?_, fun c q hasking => ?_, fun c c' q hc hc' =>
    hq.own c c' q (hclient c q hc) (hclient c' q hc'), fun c q reply hmem => ?_⟩
  · rw [hsame, hqueues]
    exact hq.fresh
  · rw [hsame]
    exact hq.nodup
  · rw [received_of_none (hreply q)]
    exact hreplies q
  · obtain ⟨hnone, text, hput⟩ := hq.asking c q (hclient c q hasking)
    rw [received_of_none (hreply q)]
    exact ⟨hnone, text, List.mem_append_left _ hput⟩
  · rcases List.mem_append.mp hmem with hmem | hmem
    · obtain ⟨text, hput, heq⟩ := hq.answered c q reply hmem
      exact ⟨text, List.mem_append_left _ hput, heq⟩
    · have hnone := hreply q
      rw [← List.mem_singleton.mp hmem, Event.replyFrom, if_pos rfl] at hnone
      cases hnone

omit [DecidableEq κ] in
/-- Moreover, no job is handled. -/
theorem Queues.quiet (hq : Queues h s) (hmessage : e.message.bind Message.replyTo = none)
    (hjob : e.job = none) (hreply : ∀ q, e.replyFrom q = none) (hqueues : s'.queues = s.queues)
    (hsame : s'.reply = s.reply)
    (hclient : ∀ c q, s'.client c = .asking q → s.client c = .asking q) :
    Queues (h ++ [e]) s' := by
  refine hq.same hmessage hreply hqueues (fun q => ?_) hclient
  rw [handledJobs_of_none hjob, hsame]
  exact hq.replies q

theorem setClient_client (s : State κ) (c : κ) (now : Client) :
    (s.setClient c now).client = Function.update s.client c now := rfl

/-- A client that is still in `ask` was so before. -/
theorem asking_of_setClient {c : κ} {now : Client} (hnow : ∀ q, now ≠ .asking q) (c' : κ) (q : ℕ)
    (hasking : (s.setClient c now).client c' = .asking q) : s.client c' = .asking q := by
  by_cases hc : c' = c
  · rw [hc, setClient_client, Function.update_self] at hasking
    exact absurd hasking (hnow q)
  · rw [setClient_client, Function.update_of_ne hc] at hasking
    exact hasking

/-- `ask` makes a queue of its own. -/
theorem Queues.asks (hq : Queues h s) (c : κ) (text : String) :
    Queues (h ++ [.put c (.printJob ⟨text, some s.queues⟩)])
      (({ s with queues := s.queues + 1 }.put (.printJob ⟨text, some s.queues⟩)).setClient c
        (.asking s.queues)) := by
  have hqueue : (enqueued (h ++ [.put c (.printJob ⟨text, some s.queues⟩)])).filterMap
      Message.replyTo = (enqueued h).filterMap Message.replyTo ++ [s.queues] := by
    rw [enqueued_put, List.filterMap_append]
    rfl
  -- nobody has taken a reply from a queue that is made only now
  have hnone : received s.queues h = [] := by
    refine List.filterMap_eq_nil_iff.mpr fun e he => ?_
    cases e with
    | answered c' q reply =>
        obtain ⟨text', hput, -⟩ := hq.answered c' q reply he
        exact if_neg (hq.lt hput).ne
    | _ => rfl
  have hbefore : ∀ c' q, Function.update s.client c (.asking s.queues) c' = .asking q →
      c' = c ∧ q = s.queues ∨ c' ≠ c ∧ s.client c' = .asking q := by
    intro c' q hasking
    by_cases hc : c' = c
    · rw [hc, Function.update_self] at hasking
      exact Or.inl ⟨hc, (Client.asking.inj hasking).symm⟩
    · rw [Function.update_of_ne hc] at hasking
      exact Or.inr ⟨hc, hasking⟩
  have hlt : ∀ c' q, s.client c' = .asking q → q ≠ s.queues := by
    intro c' q hasking
    obtain ⟨-, text', hput⟩ := hq.asking c' q hasking
    exact (hq.lt hput).ne
  refine ⟨fun q hmem => ?_, ?_, fun q => ?_, fun c' q hasking => ?_, fun c₁ c₂ q h₁ h₂ => ?_,
    fun c' q reply hmem => ?_⟩
  · rw [hqueue] at hmem
    rcases List.mem_append.mp hmem with hmem | hmem
    · exact Nat.lt_succ_of_lt (hq.fresh q hmem)
    · rw [List.mem_singleton.mp hmem]
      exact Nat.lt_succ_self _
  · rw [hqueue]
    refine List.nodup_append'.mpr ⟨hq.nodup, List.nodup_singleton _, fun q hmem hlast => ?_⟩
    exact (hq.fresh q hmem).ne (List.mem_singleton.mp hlast)
  · rw [received_of_none rfl, handledJobs_of_none rfl]
    exact hq.replies q
  · rw [received_of_none rfl]
    rcases hbefore c' q hasking with ⟨rfl, rfl⟩ | ⟨-, hold⟩
    · exact ⟨hnone, text, List.mem_append_right _ (List.mem_singleton_self _)⟩
    · obtain ⟨hgot, text', hput⟩ := hq.asking c' q hold
      exact ⟨hgot, text', List.mem_append_left _ hput⟩
  · rcases hbefore c₁ q h₁ with ⟨rfl, rfl⟩ | ⟨-, hold₁⟩
    · rcases hbefore c₂ s.queues h₂ with ⟨rfl, -⟩ | ⟨-, hold₂⟩
      · rfl
      · exact absurd rfl (hlt c₂ _ hold₂)
    · rcases hbefore c₂ q h₂ with ⟨-, rfl⟩ | ⟨-, hold₂⟩
      · exact absurd rfl (hlt c₁ _ hold₁)
      · exact hq.own c₁ c₂ q hold₁ hold₂
  · rcases List.mem_append.mp hmem with hmem | hmem
    · obtain ⟨text', hput, heq⟩ := hq.answered c' q reply hmem
      exact ⟨text', List.mem_append_left _ hput, heq⟩
    · cases List.mem_singleton.mp hmem

omit [DecidableEq κ] in
/-- A job that replies on the queue of an `ask` is the job of that `ask`. -/
theorem Queues.job_eq (hf : Flow h s) (hq : Queues h s) {c : κ} {text : String} {q : ℕ}
    (hput : Event.put c (.printJob ⟨text, some q⟩) ∈ h) {job : PrintJob}
    (hjob : job ∈ handledJobs h) (hto : job.replyTo = some q) : job = ⟨text, some q⟩ := by
  have hmem : Message.printJob job ∈ enqueued h := by
    rw [hf.order, List.append_assoc]
    exact List.mem_append_left _ (List.mem_map_of_mem hjob)
  exact Message.printJob.inj (eq_of_replyTo hq.nodup hmem (mem_enqueued hput) hto rfl)

/-- `ask` takes its reply. -/
theorem Queues.receives (hf : Flow h s) (hq : Queues h s) {c : κ} {q : ℕ} {reply : String}
    {rest : List String} (hasking : s.client c = .asking q) (hreply : s.reply q = reply :: rest) :
    Queues (h ++ [.answered c q reply])
      ({ s with reply := Function.update s.reply q rest }.setClient c .idle) := by
  generalize hs' : ({ s with reply := Function.update s.reply q rest }.setClient c .idle) = s'
  have hold : ∀ c' q', s'.client c' = .asking q' → c' ≠ c ∧ s.client c' = .asking q' := by
    rw [← hs', setClient_client]
    intro c' q' hasking'
    by_cases hc : c' = c
    · rw [hc, Function.update_self] at hasking'
      cases hasking'
    · rw [Function.update_of_ne hc] at hasking'
      exact ⟨hc, hasking'⟩
  have hother : ∀ q', q' ≠ q → received q' (h ++ [.answered c q reply]) = received q' h :=
    fun q' hne => received_of_none (if_neg hne.symm)
  obtain ⟨hgot, text, hput⟩ := hq.asking c q hasking
  refine ⟨?_, ?_, fun q' => ?_, fun c' q' hasking' => ?_, fun c₁ c₂ q' h₁ h₂ =>
    hq.own c₁ c₂ q' (hold c₁ q' h₁).2 (hold c₂ q' h₂).2, fun c' q' reply' hmem => ?_⟩
  · rw [enqueued_of_none rfl, ← hs']
    exact hq.fresh
  · rw [enqueued_of_none rfl]
    exact hq.nodup
  · have hnow : s'.reply = Function.update s.reply q rest := by
      rw [← hs']
      rfl
    rw [handledJobs_of_none rfl, ← hq.replies q', hnow]
    by_cases hne : q' = q
    · have hself : received q (h ++ [.answered c q reply]) = received q h ++ [reply] := by
        simp [received, List.filterMap_append, Event.replyFrom]
      rw [hne, hself, Function.update_self, hreply, List.append_assoc]
      rfl
    · rw [hother q' hne, Function.update_of_ne hne]
  · obtain ⟨hc, hasking'⟩ := hold c' q' hasking'
    have hne : q' ≠ q := fun heq => hc (hq.own c' c q (heq ▸ hasking') hasking)
    obtain ⟨hgot', text', hput'⟩ := hq.asking c' q' hasking'
    rw [hother q' hne]
    exact ⟨hgot', text', List.mem_append_left _ hput'⟩
  · rcases List.mem_append.mp hmem with hmem | hmem
    · obtain ⟨text', hput', heq⟩ := hq.answered c' q' reply' hmem
      exact ⟨text', List.mem_append_left _ hput', heq⟩
    · cases List.mem_singleton.mp hmem
      refine ⟨text, List.mem_append_left _ hput, ?_⟩
      -- what is in the queue are replies of its job
      have hreplies := hq.replies q
      rw [hgot, hreply] at hreplies
      have hmem' : reply ∈ (handledJobs h).filterMap (PrintJob.replyOn q) := by
        rw [← hreplies]
        exact List.mem_cons_self
      obtain ⟨job, hjob, hout⟩ := List.mem_filterMap.mp hmem'
      rw [PrintJob.replyOn] at hout
      split at hout
      · next hto =>
        cases hout
        rw [hq.job_eq hf hput hjob hto]
      · cases hout

/-- **The step lemma** for the reply queues. -/
theorem Queues.effect (hf : Flow h s) (hq : Queues h s) (heffect : Effect s a e s') :
    Queues (h ++ [e]) s' := by
  have hsame : ∀ c q, s.client c = .asking q → s.client c = .asking q := fun _ _ => id
  cases heffect with
  | tells c text hidle => exact hq.quiet rfl rfl (fun _ => rfl) rfl rfl hsame
  | asks c text hidle => exact hq.asks c text
  | stops c hidle =>
      exact hq.quiet rfl rfl (fun _ => rfl) rfl rfl
        (asking_of_setClient (s := s.put .shutdown) fun q => Client.noConfusion)
  | receives c q reply rest hasking hreply => exact hq.receives hf hasking hreply
  | joins c hjoining hfinished =>
      exact hq.quiet rfl rfl (fun _ => rfl) rfl rfl
        (asking_of_setClient fun q => Client.noConfusion)
  | loops hworker hrunning => exact hq.quiet rfl rfl (fun _ => rfl) rfl rfl hsame
  | ends hworker hnot => exact hq.quiet rfl rfl (fun _ => rfl) rfl rfl hsame
  | takes job rest hworker hmailbox => exact hq.quiet rfl rfl (fun _ => rfl) rfl rfl hsame
  | shutsDown rest hworker hmailbox => exact hq.quiet rfl rfl (fun _ => rfl) rfl rfl hsame
  | prints job line hworker => exact hq.quiet rfl rfl (fun _ => rfl) rfl rfl hsame
  | handles job hworker hnone =>
      refine hq.same rfl (fun _ => rfl) rfl (fun q => ?_) hsame
      have hnothing : job.replyOn q = none := by
        rw [PrintJob.replyOn, hnone]
        exact if_neg nofun
      rw [handledJobs_handled, List.filterMap_append, ← hq.replies q]
      simp [hnothing]
  | replies job q hworker hsome =>
      refine hq.same rfl (fun _ => rfl) rfl (fun q' => ?_) hsame
      rw [handledJobs_handled, List.filterMap_append, ← hq.replies q', List.append_assoc]
      by_cases hq' : q' = q
      · simp [hq', PrintJob.replyOn, hsome]
      · simp [hq', Ne.symm hq', PrintJob.replyOn, hsome]

/-! ## Every run -/

/-- The mailbox and the queues, in every run. -/
theorem run_queues (hr : Run step anyStep start h s) : Flow h s ∧ Queues h s := by
  refine Run.invariant (fun h s => Flow h s ∧ Queues h s) ⟨.start, .start⟩ ?_ hr
  rintro h s a e s' ⟨hf, hq⟩ - hs
  exact ⟨hf.effect (effect_step hs), hq.effect hf (effect_step hs)⟩

/-- A server that has finished stays so, and handles nothing. -/
theorem finished_effect (hfinished : s.worker = .finished) (heffect : Effect s a e s') :
    s'.worker = .finished ∧ e.job = none := by
  cases heffect with
  | tells c text hidle => exact ⟨hfinished, rfl⟩
  | asks c text hidle => exact ⟨hfinished, rfl⟩
  | stops c hidle => exact ⟨hfinished, rfl⟩
  | receives c q reply rest hasking hreply => exact ⟨hfinished, rfl⟩
  | joins c hjoining hfinished' => exact ⟨hfinished, rfl⟩
  | ends hworker hnot => exact ⟨rfl, rfl⟩
  | shutsDown rest hworker hmailbox => exact ⟨rfl, rfl⟩
  | _ => simp_all

/-- `stop` returns only when the server has finished. -/
theorem run_finished_of_stopped (hr : Run step anyStep start h s) {c : κ}
    (hstopped : Event.stopped c ∈ h) : s.worker = .finished := by
  revert c
  refine Run.invariant (fun h s => ∀ {c}, Event.stopped c ∈ h → s.worker = .finished)
    (fun hmem => absurd hmem List.not_mem_nil) ?_ hr
  intro h s a e s' hfinished _ hs c hmem
  have heffect := effect_step hs
  rcases List.mem_append.mp hmem with hmem | hmem
  · exact (finished_effect (hfinished hmem) heffect).1
  · rw [← List.mem_singleton.mp hmem] at heffect
    cases heffect with
    | joins c hjoining hworker => exact hworker

omit [DecidableEq κ] in
/-- Up to the first `Shutdown` the server handles what has been put, and nothing after it. -/
theorem Flow.handled_prefix (hf : Flow h s) : handledJobs h <+: jobsBefore (enqueued h) := by
  rw [hf.order, List.append_assoc, jobsBefore_append]
  exact List.prefix_append _ _

omit [DecidableEq κ] in
/-- When the server has finished it has handled the jobs before the first `Shutdown`. -/
theorem Flow.handled_eq (hf : Flow h s) (hfinished : s.worker = .finished) :
    handledJobs h = jobsBefore (enqueued h) := by
  rw [hf.order, List.append_assoc, jobsBefore_append, hfinished]
  exact (List.append_nil _).symm

end State

/-- Of several jobs with reply queues of their own one replies on queue `q`. -/
theorem filterMap_replyOn {jobs : List PrintJob}
    (hnodup : (jobs.filterMap PrintJob.replyTo).Nodup) {job : PrintJob} {q : ℕ}
    (hmem : job ∈ jobs) (hto : job.replyTo = some q) :
    jobs.filterMap (PrintJob.replyOn q) = [output job.text] := by
  induction jobs with
  | nil => exact absurd hmem List.not_mem_nil
  | cons first jobs ih =>
      have hrest : (jobs.filterMap PrintJob.replyTo).Nodup :=
        hnodup.sublist ((List.sublist_cons_self first jobs).filterMap _)
      rcases List.mem_cons.mp hmem with rfl | hmem'
      · -- no later job has this queue
        have hnone : jobs.filterMap (PrintJob.replyOn q) = [] := by
          refine List.filterMap_eq_nil_iff.mpr fun job' hjob' => if_neg ?_
          exact ne_some_of_nodup hnodup hto job' hjob'
        have hself : job.replyOn q = some (output job.text) := if_pos hto
        rw [List.filterMap_cons_some hself, hnone]
      · have hfirst : first.replyOn q = none := by
          refine if_neg fun hto' => ?_
          exact ne_some_of_nodup hnodup hto' job hmem' hto
        rw [List.filterMap_cons_none hfirst]
        exact ih hrest hmem'

namespace State

variable {κ : Type*} [DecidableEq κ] {h : List (Event κ)} {s s' : State κ} {a : Action κ}
  {e : Event κ}

omit [DecidableEq κ] in
/-- A job that has been handled has been answered, once. -/
theorem Queues.replied (hf : Flow h s) (hq : Queues h s) {job : PrintJob} {q : ℕ}
    (hjob : job ∈ handledJobs h) (hto : job.replyTo = some q) :
    received q h ++ s.reply q = [output job.text] := by
  have hnodup := hq.nodup
  rw [hf.order, List.append_assoc, List.filterMap_append, List.filterMap_map] at hnodup
  rw [hq.replies q]
  exact filterMap_replyOn (List.Nodup.of_append_left hnodup) hjob hto

/-- What the server has done with the messages of its mailbox. -/
structure Served (h : List (Event κ)) (s : State κ) : Prop where
  /-- The jobs handled are, in order, the first of those in front of the first `Shutdown`. -/
  handled : handledJobs h <+: jobsBefore (enqueued h)
  /-- No two calls of `ask` have the same reply queue. -/
  own : ((enqueued h).filterMap Message.replyTo).Nodup
  /-- The queue of a job that has been handled has had its reply, and no other. -/
  replied : ∀ job ∈ handledJobs h, ∀ q, job.replyTo = some q →
    received q h ++ s.reply q = [output job.text]
  silent : ∀ q, (∀ job ∈ handledJobs h, job.replyTo ≠ some q) → received q h ++ s.reply q = []
  /-- An `ask` returns the reply to its own text. -/
  answered : ∀ c q reply, Event.answered c q reply ∈ h →
    ∃ text, Event.put c (.printJob ⟨text, some q⟩) ∈ h ∧ reply = output text
  /-- Once a `stop` has returned, all jobs in front of the first `Shutdown` have been handled. -/
  stopped : ∀ c, Event.stopped c ∈ h → handledJobs h = jobsBefore (enqueued h)

/-- **Order and replies**, in every reachable state. -/
theorem run_served (hr : Run step anyStep start h s) : Served h s := by
  obtain ⟨hf, hq⟩ := run_queues hr
  refine ⟨hf.handled_prefix, hq.nodup, fun job hjob q hto => hq.replied hf hjob hto,
    fun q hno => ?_, hq.answered, fun c hmem => hf.handled_eq (run_finished_of_stopped hr hmem)⟩
  rw [hq.replies q]
  exact List.filterMap_eq_nil_iff.mpr fun job hjob => if_neg (hno job hjob)

/-- A client tells a job, one asks, one stops the server. -/
theorem run_served_demo : ∃ (h : List (Event Bool)) (s : State Bool),
    Run step anyStep start h s ∧ .answered true 0 "[PrintServer] printed: report" ∈ h ∧
      .stopped false ∈ h ∧ Served h s := by
  have hr := run_of_replay (step (κ := Bool)) (s := start)
    [.tell false "hello", .ask true "report", .stop false, .work, .work, .work, .work, .work, .work,
      .work, .work, .work, .work, .receive true, .join false, .tell true "late"] rfl
  exact ⟨_, _, hr, by decide, by decide, run_served hr⟩

end State

end PrintServer

end Actor
