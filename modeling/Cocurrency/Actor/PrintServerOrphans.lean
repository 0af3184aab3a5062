/-
# Orphans of the print server (`python/actor/print_server.py`)

An `ask` that is called after a `stop` may put its job behind the `Shutdown`: then nobody will ever
put a reply into its queue.  `run_noOrphan` : no `ask` waits for ever if none is called after a
`stop`; one that is may do so, from every state that is reached.
-/
import Cocurrency.Actor.PrintServer

namespace Actor

namespace PrintServer

namespace State

variable {κ : Type*} [DecidableEq κ]

/-- The client waits on a reply queue that is empty and stays so: the server has finished, and will
never handle its job. -/
def Orphaned (s : State κ) (c : κ) : Prop :=
  s.worker = .finished ∧ ∃ q, s.client c = .asking q ∧ s.reply q = [] ∧
    ∀ h' s', Run step anyStep s h' s' → ∀ job ∈ handledJobs h', job.replyTo ≠ some q

omit [DecidableEq κ] in
/-- A `Shutdown` has been put. -/
def Stopping (s : State κ) : Prop := .shutdown ∈ s.mailbox ∨ s.worker = .finished

omit [DecidableEq κ] in
/-- No `ask` is called once a `Shutdown` has been put. -/
def AsksInTime (s : State κ) (a : Action κ) : Prop := ∀ c text, a = .ask c text → ¬ s.Stopping

end State

theorem jobsBefore_append_singleton {ms : List Message} {job : PrintJob} (m : Message)
    (hjob : job ∈ jobsBefore ms) : job ∈ jobsBefore (ms ++ [m]) := by
  induction ms with
  | nil => exact absurd hjob List.not_mem_nil
  | cons first ms ih =>
      cases first with
      | shutdown => exact absurd hjob List.not_mem_nil
      | printJob job' =>
          rcases List.mem_cons.mp hjob with rfl | hjob
          · exact List.mem_cons_self
          · exact List.mem_cons_of_mem _ (ih hjob)

theorem mem_jobsBefore {ms : List Message} (hno : .shutdown ∉ ms) (job : PrintJob) :
    job ∈ jobsBefore (ms ++ [.printJob job]) := by
  induction ms with
  | nil => exact List.mem_cons_self
  | cons first ms ih =>
      cases first with
      | shutdown => exact absurd List.mem_cons_self hno
      | printJob job' =>
          exact List.mem_cons_of_mem _ (ih fun hmem => hno (List.mem_cons_of_mem _ hmem))

namespace State

variable {κ : Type*} [DecidableEq κ] {h : List (Event κ)} {s s' : State κ} {a : Action κ}
  {e : Event κ}

omit [DecidableEq κ] in
theorem Flow.not_mem_shutdown (hf : Flow h s) (hnot : ¬ s.Stopping) : .shutdown ∉ enqueued h := by
  obtain ⟨hmailbox, hfinished⟩ := not_or.mp hnot
  rw [hf.order]
  intro hmem
  rcases List.mem_append.mp hmem with hmem | hmem
  · rcases List.mem_append.mp hmem with hmem | hmem
    · obtain ⟨job, -, hjob⟩ := List.mem_map.mp hmem
      cases hjob
    · cases hworker : s.worker with
      | finished => exact hfinished hworker
      | _ =>
          rw [hworker] at hmem
          simp [Worker.inHand] at hmem
  · exact hmailbox hmem

/-- When asks are in time their jobs are in front of the first `Shutdown`. -/
theorem run_inTime (hr : Run step AsksInTime start h s) :
    ∀ c text q, Event.put c (.printJob ⟨text, some q⟩) ∈ h →
      ⟨text, some q⟩ ∈ jobsBefore (enqueued h) := by
  have hinv : Flow h s ∧ ∀ c text q, Event.put c (.printJob ⟨text, some q⟩) ∈ h →
      ⟨text, some q⟩ ∈ jobsBefore (enqueued h) := by
    refine Run.invariant (fun h s => Flow h s ∧ ∀ c text q,
      Event.put c (.printJob ⟨text, some q⟩) ∈ h → ⟨text, some q⟩ ∈ jobsBefore (enqueued h))
      ⟨.start, fun _ _ _ hmem => absurd hmem List.not_mem_nil⟩ ?_ hr
    rintro h s a e s' ⟨hf, htime⟩ hok hs
    have heffect := effect_step hs
    refine ⟨hf.effect heffect, fun c text q hmem => ?_⟩
    rcases List.mem_append.mp hmem with hmem | hmem
    · have hbefore := htime c text q hmem
      cases hmessage : e.message with
      | none =>
          rw [enqueued_of_none hmessage]
          exact hbefore
      | some m =>
          have hput : enqueued (h ++ [e]) = enqueued h ++ [m] := by
            simp [enqueued, List.filterMap_append, hmessage]
          rw [hput]
          exact jobsBefore_append_singleton m hbefore
    · rw [← List.mem_singleton.mp hmem] at heffect ⊢
      rw [enqueued_put]
      cases heffect with
      | asks c text hidle =>
          exact mem_jobsBefore (hf.not_mem_shutdown (hok c text rfl)) _
  exact hinv.2

theorem run_handledJobs_of_finished (hfinished : s.worker = .finished) {h' : List (Event κ)}
    (hr : Run step anyStep s h' s') : handledJobs h' = [] := by
  have hinv : s'.worker = .finished ∧ handledJobs h' = [] := by
    refine Run.invariant (fun h s => s.worker = .finished ∧ handledJobs h = []) ⟨hfinished, rfl⟩
      ?_ hr
    rintro h s a e s' ⟨hfinished, hnone⟩ - hs
    obtain ⟨hfinished', hjob⟩ := finished_effect hfinished (effect_step hs)
    refine ⟨hfinished', ?_⟩
    rw [handledJobs_of_none hjob, hnone]
  exact hinv.2

theorem not_orphaned_of_inTime (hr : Run step AsksInTime start h s) (c : κ) : ¬ s.Orphaned c := by
  rintro ⟨hfinished, q, hasking, hempty, -⟩
  obtain ⟨hf, hq⟩ := run_queues (hr.strengthen fun _ _ _ _ _ _ _ _ => trivial)
  obtain ⟨hgot, text, hput⟩ := hq.asking c q hasking
  -- its job has been handled
  have hjob := run_inTime hr c text q hput
  rw [← hf.handled_eq hfinished] at hjob
  have hreply := hq.replied hf hjob rfl
  rw [hgot, hempty] at hreply
  cases hreply

/-! ## A late ask -/

/-- Client `c` waits on an empty queue, and the server meets a `Shutdown` before its job. -/
structure Late (c : κ) (q : ℕ) (s : State κ) : Prop where
  asking : s.client c = .asking q
  empty : s.reply q = []
  hand : ∀ m ∈ s.worker.inHand, m.replyTo ≠ some q
  mailbox : s.worker = .finished ∨
    ∃ front back, s.mailbox = front ++ .shutdown :: back ∧ ∀ m ∈ front, m.replyTo ≠ some q

/-- The steps that the server has still to make. -/
def left (s : State κ) : ℕ :=
  4 * s.mailbox.length + match s.worker with
    | .looping => 1
    | .waiting => 0
    | .handling _ => 3
    | .printed _ => 2
    | .finished => 0

theorem Late.work {c : κ} {q : ℕ} (hlate : Late c q s) (heffect : Effect s .work e s') :
    Late c q s' ∧ s'.left < s.left := by
  obtain ⟨hasking, hempty, hhand, hmailbox⟩ := hlate
  cases heffect with
  | loops hworker hrunning =>
      rw [hworker] at hmailbox
      refine ⟨⟨hasking, hempty, fun m hm => absurd hm List.not_mem_nil,
        Or.inr (hmailbox.resolve_left Worker.noConfusion)⟩, ?_⟩
      simp [left, hworker]
  | ends hworker hnot =>
      refine ⟨⟨hasking, hempty, fun m hm => ?_, Or.inl rfl⟩, ?_⟩
      · rw [List.mem_singleton.mp hm]
        exact (Option.some_ne_none q).symm
      · simp [left, hworker]
  | takes job rest hworker heq =>
      rw [hworker] at hmailbox
      obtain ⟨front, back, hsplit, hfront⟩ := hmailbox.resolve_left Worker.noConfusion
      rw [heq] at hsplit
      cases front with
      | nil => cases hsplit
      | cons m front =>
          cases hsplit
          obtain ⟨hfirst, hfront⟩ := List.forall_mem_cons.mp hfront
          refine ⟨⟨hasking, hempty, fun m hm => ?_, Or.inr ⟨front, back, rfl, hfront⟩⟩, ?_⟩
          · rw [List.mem_singleton.mp hm]
            exact hfirst
          · simp [left, hworker, heq]
            omega
  | shutsDown rest hworker heq =>
      refine ⟨⟨hasking, hempty, fun m hm => ?_, Or.inl rfl⟩, ?_⟩
      · rw [List.mem_singleton.mp hm]
        exact (Option.some_ne_none q).symm
      · simp [left, hworker, heq]
  | prints job line hworker =>
      rw [hworker] at hhand hmailbox
      refine ⟨⟨hasking, hempty, hhand, Or.inr (hmailbox.resolve_left Worker.noConfusion)⟩, ?_⟩
      simp [left, hworker]
  | handles job hworker hnone =>
      rw [hworker] at hmailbox
      refine ⟨⟨hasking, hempty, fun m hm => absurd hm List.not_mem_nil,
        Or.inr (hmailbox.resolve_left Worker.noConfusion)⟩, ?_⟩
      simp [left, hworker]
  | replies job q' hworker hsome =>
      rw [hworker] at hhand hmailbox
      -- the reply goes to another queue
      have hne : q ≠ q' := by
        rintro rfl
        exact hhand _ (List.mem_singleton_self _) hsome
      refine ⟨⟨hasking, ?_, fun m hm => absurd hm List.not_mem_nil,
        Or.inr (hmailbox.resolve_left Worker.noConfusion)⟩, ?_⟩
      · show Function.update s.reply q' _ q = []
        rw [Function.update_of_ne hne, hempty]
      · simp [left, hworker]

/-- The server works until it has finished. -/
theorem Late.exists_orphaned {c : κ} {q : ℕ} (hlate : Late c q s) :
    ∃ h' s', Run step anyStep s h' s' ∧ s'.Orphaned c := by
  have hlowers : ∀ (s : State κ) a e s', Late c q s → a = .work → s.step a = some (e, s') →
      Late c q s' ∧ left s' < left s := by
    rintro s a e s' hlate rfl hs
    exact hlate.work (effect_step hs)
  obtain ⟨h', s', hr, hstuck⟩ := Run.exists_stuck _ _ hlowers hlate
  have hlate' : Late c q s' := by
    refine Run.invariant (fun _ s => Late c q s) hlate ?_ hr
    rintro h s a e s' hlate rfl hs
    exact (hlate.work (effect_step hs)).1
  have hstuck' : s'.work = none := hstuck .work rfl
  have hfinished : s'.worker = .finished := by
    cases hworker : s'.worker with
    | finished => rfl
    | looping =>
        rw [State.work, hworker] at hstuck'
        dsimp only at hstuck'
        split at hstuck' <;> cases hstuck'
    | waiting =>
        obtain ⟨front, back, hmailbox, -⟩ :=
          hlate'.mailbox.resolve_left (by rw [hworker]; exact Worker.noConfusion)
        rw [State.work, hworker] at hstuck'
        dsimp only at hstuck'
        split at hstuck'
        · next hnil =>
          rw [hnil] at hmailbox
          exact absurd hmailbox.symm (List.append_ne_nil_of_right_ne_nil _ (List.cons_ne_nil _ _))
        · cases hstuck'
        · cases hstuck'
    | handling job =>
        rw [State.work, hworker] at hstuck'
        cases hstuck'
    | printed job =>
        rw [State.work, hworker] at hstuck'
        dsimp only at hstuck'
        split at hstuck' <;> cases hstuck'
  refine ⟨h', s', hr.strengthen fun _ _ _ _ _ _ _ _ => trivial, hfinished, q, hlate'.asking,
    hlate'.empty, fun h'' s'' hr' job hjob => ?_⟩
  rw [run_handledJobs_of_finished hfinished hr'] at hjob
  exact absurd hjob List.not_mem_nil

/-- An `ask` after a `Shutdown` is late. -/
theorem late_ask (hr : Run step anyStep start h s) {c : κ} {text : String}
    (hnot : ¬ AsksInTime s (.ask c text)) (hs : s.step (.ask c text) = some (e, s')) :
    Late c s.queues s' := by
  obtain ⟨hf, hq⟩ := run_queues hr
  have hstopping : s.Stopping := by
    by_contra hno
    exact hnot fun _ _ _ => hno
  have hfresh : ∀ m ∈ enqueued h, m.replyTo ≠ some s.queues := fun m hm hto =>
    lt_irrefl _ (hq.fresh s.queues (List.mem_filterMap.mpr ⟨m, hm, hto⟩))
  have hempty : s.reply s.queues = [] := by
    have hreplies := hq.replies s.queues
    have hnone : (handledJobs h).filterMap (PrintJob.replyOn s.queues) = [] := by
      refine List.filterMap_eq_nil_iff.mpr fun job hjob => if_neg ?_
      refine hfresh (.printJob job) ?_
      rw [hf.order, List.append_assoc]
      exact List.mem_append_left _ (List.mem_map_of_mem hjob)
    rw [hnone] at hreplies
    exact (List.append_eq_nil_iff.mp hreplies).2
  have heffect := effect_step hs
  cases heffect with
  | asks c text hidle =>
      refine ⟨Function.update_self _ _ _, hempty, fun m hm => hfresh m ?_, ?_⟩
      · rw [hf.order]
        exact List.mem_append_left _ (List.mem_append_right _ hm)
      · rcases hstopping with hmem | hfinished
        · obtain ⟨front, back, hsplit⟩ := List.append_of_mem hmem
          refine Or.inr ⟨front, back ++ [.printJob ⟨text, some s.queues⟩], ?_, fun m hm =>
            hfresh m ?_⟩
          · show s.mailbox ++ [_] = _
            rw [hsplit, List.append_assoc]
            rfl
          · rw [hf.order, hsplit]
            exact List.mem_append_right _ (List.mem_append_left _ hm)
        · exact Or.inl hfinished

/-- **No orphans.**  As long as no `ask` is called once a `Shutdown` has been put, no client is
orphaned; and a client that calls `ask` later can be. -/
theorem run_noOrphan (hr : Run step anyStep start h s) :
    (Run step AsksInTime start h s → ∀ c, ¬ s.Orphaned c) ∧
      ∀ c text e s', ¬ AsksInTime s (.ask c text) → s.step (.ask c text) = some (e, s') →
        ∃ h' s'', Run step anyStep s' h' s'' ∧ s''.Orphaned c := by
  refine ⟨not_orphaned_of_inTime, fun c text e s' hnot hs => ?_⟩
  exact (late_ask hr hnot hs).exists_orphaned

/-- The second client is late: the server has been stopped, and is still to finish. -/
theorem run_noOrphan_demo : ∃ (h : List (Event Bool)) (s s' : State Bool) (e : Event Bool),
    Run step anyStep start h s ∧ (∀ c, ¬ s.Orphaned c) ∧
      s.step (.ask true "report") = some (e, s') ∧
        ∃ h' s'', Run step anyStep s' h' s'' ∧ s''.Orphaned true := by
  have hr := run_of_replay (step (κ := Bool)) (s := start) [.tell false "hello", .stop false] rfl
  have hok : Run (step (κ := Bool)) AsksInTime start _ _ :=
    run_of_replay_of step [.tell false "hello", .stop false]
      (by simp [AsksInTime]) rfl
  have hnot : ¬ AsksInTime (State.mk (κ := Bool) [.printJob ⟨"hello", none⟩, .shutdown] true
      .looping (Function.update (fun _ => .idle) false .joining) (fun _ => []) 0)
      (.ask true "report") := fun hall => hall true "report" rfl (Or.inl (by decide))
  exact ⟨_, _, _, _, hr, (run_noOrphan hr).1 hok, rfl,
    (run_noOrphan hr).2 true "report" _ _ hnot rfl⟩

/-- The server has been stopped and has finished when a client asks. -/
theorem not_noOrphan : ¬ ∀ (h : List (Event Bool)) (s : State Bool), Run step anyStep start h s →
    ∀ c, ¬ s.Orphaned c := by
  intro hall
  have hr := run_of_replay (step (κ := Bool)) (s := start)
    [.stop false, .ask true "report", .work, .work] rfl
  refine hall _ _ hr true ⟨rfl, 0, rfl, rfl, fun h' s' hr' job hjob => ?_⟩
  rw [run_handledJobs_of_finished rfl hr'] at hjob
  exact absurd hjob List.not_mem_nil

end State

end PrintServer

end Actor
