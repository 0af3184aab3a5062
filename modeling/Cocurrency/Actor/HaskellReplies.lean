/-
# Replies of the print server with an MVar, and its demo

* `printServer_correct` : the jobs are handled once each and in the order in which they have been
  put into the mailbox, with consecutive numbers; each `ask` gets the reply to its own job; the
  server never waits to reply; and where nobody can go on the server waits and all clients have
  returned, or the server has shut down;
* `main_completes` : the program as it is, with one client, which ends when `main` returns.
-/
import Cocurrency.Actor.HaskellPrintServer

namespace Actor

namespace HaskellPrintServer

variable {κ : Type} [DecidableEq κ] {program : κ → List Call} {h : List (Event κ)}
  {s s' : State κ} {t : Option κ} {e : Event κ}

/-! ## Replies -/

omit [DecidableEq κ] in
/-- What is handled is in a message. -/
theorem mem_of_numbered {ms : List (Message κ)} {counter : ℕ} {c : κ} {n : ℕ} {output : String}
    (hmem : ((c, n), output) ∈ numbered counter ms) :
    ∃ text, Message.PrintJob text c n ∈ ms := by
  induction ms generalizing counter with
  | nil => cases hmem
  | cons m ms ih =>
      cases m with
      | Shutdown => cases hmem
      | PrintJob text c' n' =>
          rcases List.mem_cons.mp hmem with heq | hmem
          · cases heq
            exact ⟨text, List.mem_cons_self⟩
          · obtain ⟨text', h⟩ := ih hmem
            exact ⟨text', List.mem_cons_of_mem _ h⟩

omit [DecidableEq κ] in
/-- What is in a message before a `Shutdown` is handled. -/
theorem mem_numbered {ms : List (Message κ)} (hms : .Shutdown ∉ ms) (counter : ℕ) {text : String}
    {c : κ} {n : ℕ} (hmem : Message.PrintJob text c n ∈ ms) :
    ∃ output, ((c, n), output) ∈ numbered counter ms := by
  induction ms generalizing counter with
  | nil => cases hmem
  | cons m ms ih =>
      rw [List.mem_cons, not_or] at hms
      cases m with
      | Shutdown => exact absurd rfl hms.1
      | PrintJob text' c' n' =>
          rcases List.mem_cons.mp hmem with heq | hmem
          · cases heq
            exact ⟨_, List.mem_cons_self⟩
          · obtain ⟨output, h⟩ := ih hms.2 (counter + 1) hmem
            exact ⟨output, List.mem_cons_of_mem _ h⟩

/-- A job carries a number of its client. -/
theorem mem_numbersOf {ms : List (Message κ)} {text : String} {c : κ} {n : ℕ}
    (hmem : Message.PrintJob text c n ∈ ms) : n ∈ numbersOf c ms :=
  List.mem_filterMap.mpr ⟨_, hmem, if_pos rfl⟩

/-- And every number is that of a job. -/
theorem of_mem_numbersOf {ms : List (Message κ)} {c : κ} {n : ℕ} (hmem : n ∈ numbersOf c ms) :
    ∃ text, Message.PrintJob text c n ∈ ms := by
  obtain ⟨m, hm, hn⟩ := List.mem_filterMap.mp hmem
  cases m with
  | Shutdown => cases hn
  | PrintJob text c' n' =>
      simp only [Option.ite_none_right_eq_some, Option.some.injEq] at hn
      obtain ⟨rfl, rfl⟩ := hn
      exact ⟨text, hm⟩

/-- What has been put into a variable for replies is handled. -/
theorem mem_handled {c : κ} {n : ℕ} {output : String} :
    ((c, n), output) ∈ handled h ↔ output ∈ h.filterMap (MVar.Event.putInto (Var.reply c n)) := by
  simp only [handled, List.mem_filterMap]
  constructor
  · rintro ⟨e, he, hview⟩
    refine ⟨e, he, ?_⟩
    rcases e with _ | ⟨t, _ | ⟨c', n'⟩, x⟩ | _
    · cases hview
    · cases hview
    · cases hview
      exact MVar.putInto_puts _ _
    · cases hview
  · rintro ⟨e, he, hput⟩
    refine ⟨e, he, ?_⟩
    rcases e with _ | ⟨t, v, x⟩ | _
    · cases hput
    · by_cases hv : v = .reply c n
      · subst hv
        rw [MVar.putInto_puts, Option.some.injEq] at hput
        rw [hput]
      · rw [MVar.putInto_of_ne hv] at hput
        cases hput
    · cases hput

/-- Wherever a client is, it has made some of its calls. -/
theorem ClientOk.made {program : List Call} {c : κ} {k : Control κ} (hc : ClientOk program h c k) :
    ∃ made unused rest, Made program h c made unused rest := by
  cases hc with
  | calls made rest hm => exact ⟨_, _, _, hm⟩
  | discarding n rest hm => exact ⟨_, _, _, hm⟩
  | asking n rest hm => exact ⟨_, _, _, hm⟩

/-- A client uses each variable once. -/
theorem ClientOk.nodup {program : List Call} {c : κ} {k : Control κ}
    (hc : ClientOk program h c k) : (numbersOf c (mailed h)).Nodup := by
  obtain ⟨made, unused, rest, hm⟩ := hc.made
  rw [hm.numbers]
  exact List.nodup_range

/-- Who asks has put a job into the mailbox. -/
theorem ClientOk.job {program : List Call} {c : κ} {n : ℕ} {rest : List Call}
    (hc : ClientOk program h c (.asking c n rest)) :
    ∃ text, Message.PrintJob text c n ∈ mailed h := by
  cases hc with
  | asking _ _ hm =>
      apply of_mem_numbersOf
      rw [hm.numbers]
      exact List.mem_range.mpr (Nat.lt_succ_self n)

/-- Every variable is empty in the beginning. -/
theorem flow (hr : Run HaskellPrintServer.step anyStep (HaskellPrintServer.start program) h s)
    (v : Var κ) : h.filterMap (MVar.Event.putInto v) =
      h.filterMap (MVar.Event.takenFrom v) ++ (s.content v).toList :=
  MVar.run_flow hr v

/-- A job in hand has not been replied to. -/
theorem notMem_of_replying
    (hr : Run HaskellPrintServer.step anyStep (HaskellPrintServer.start program) h s) {c : κ}
    {n : ℕ} {output : String} {count : ℕ} (hcontrol : s.control none = .replying c n output count)
    (y : String) : ((c, n), y) ∉ handled h := by
  intro hmem
  have hok := ok_run hr
  have hserver := hok.server
  rw [hcontrol] at hserver
  cases hserver with
  | replying before text _ _ htaken hno hhandled =>
      rw [hhandled] at hmem
      obtain ⟨text', hbefore⟩ := mem_of_numbered hmem
      -- the same variable would be in two messages
      have hnodup := (hok.client c).nodup
      have hmailed : mailed h = _ := flow hr .mailbox
      have htaken' : h.filterMap (MVar.Event.takenFrom Var.mailbox) = _ := htaken
      rw [hmailed, htaken', numbersOf_append, numbersOf_append] at hnodup
      have hdisjoint := (List.nodup_append.mp (List.nodup_append.mp hnodup).1).2.2
      have hlast : Message.PrintJob text c n ∈ [Message.PrintJob text c n] := List.mem_cons_self
      exact hdisjoint n (mem_numbersOf hbefore) n (mem_numbersOf hlast) rfl

/-- The server does not wait to reply. -/
theorem empty_of_replying
    (hr : Run HaskellPrintServer.step anyStep (HaskellPrintServer.start program) h s) {c : κ}
    {n : ℕ} {output : String} {count : ℕ} (hcontrol : s.control none = .replying c n output count) :
    s.content (.reply c n) = none := by
  by_contra hfull
  obtain ⟨y, hy⟩ := Option.ne_none_iff_exists'.mp hfull
  have hmem : ((c, n), y) ∈ handled h := by
    rw [mem_handled, flow hr, hy]
    exact List.mem_append_right _ (List.mem_singleton.mpr rfl)
  exact notMem_of_replying hr hcontrol y hmem

/-- What has been received has been replied. -/
theorem handled_of_received
    (hr : Run HaskellPrintServer.step anyStep (HaskellPrintServer.start program) h s) {c : κ}
    {n : ℕ} {output : String} (hmem : output ∈ received c n h) : ((c, n), output) ∈ handled h := by
  rw [mem_handled, flow hr]
  exact List.mem_append_left _ hmem

omit [DecidableEq κ] in
/-- What the server has replied to, as far as it has come. -/
theorem ServerOk.handled_le {taken : List (Message κ)} {handled : List ((κ × ℕ) × String)}
    {k : Control κ} (hk : ServerOk taken handled k) : handled <+: numbered 0 taken := by
  cases hk with
  | serving hno hhandled => rw [hhandled]
  | replying before text c n htaken hno hhandled =>
      rw [hhandled, htaken]
      exact numbered_mono (List.prefix_append _ _) 0
  | stopped before htaken hno hhandled =>
      rw [hhandled, htaken]
      exact numbered_mono (List.prefix_append _ _) 0

/-! ## Every run -/

/-- Where a client that has not returned waits when nobody can go on. -/
inductive Waits (h : List (Event κ)) (s : State κ) (c : κ) : Control κ → Prop
  | returned (made : ℕ) : Waits h s c (.calls c made [])
  /-- For room in the mailbox. -/
  | mailing (made : ℕ) (call : Call) (rest : List Call) : s.content .mailbox ≠ none →
      Waits h s c (.calls c made (call :: rest))
  /-- For a reply to a message that is not handled. -/
  | asking (n : ℕ) (rest : List Call) : (∀ output, ((c, n), output) ∉ handled h) →
      Waits h s c (.asking c n rest)

/-- A client where nobody can go on. -/
theorem waits_of_stuck
    (hr : Run HaskellPrintServer.step anyStep (HaskellPrintServer.start program) h s)
    (hstuck : ∀ t, HaskellPrintServer.step s t = none) (c : κ) :
    Waits h s c (s.control (some c)) := by
  have hclient := (ok_run hr).client c
  generalize hcontrol : s.control (some c) = k at hclient ⊢
  cases hclient with
  | calls made rest hm =>
      cases rest with
      | nil => exact .returned made
      | cons call rest =>
          obtain ⟨m, hmailbox⟩ := MVar.full_of_stuck (by rw [hcontrol, code_calls])
            (hstuck (some c))
          exact .mailing made call rest (by rw [hmailbox]; exact Option.some_ne_none m)
  | discarding n rest hm =>
      have hcode : code (s.control (some c)) =
          .tryTake (.reply c n) fun _ => .calls c (n + 1) rest := by rw [hcontrol]; rfl
      exact absurd hcode (MVar.not_tryTake_of_stuck (hstuck (some c)))
  | asking n rest hm =>
      have hempty : s.content (.reply c n) = none :=
        MVar.empty_of_stuck (by rw [hcontrol]; rfl) (hstuck (some c))
      refine .asking n rest fun output hmem => ?_
      have hreceived : h.filterMap (MVar.Event.takenFrom (Var.reply c n)) = [] :=
        hm.unused n le_rfl
      rw [mem_handled, flow hr, hreceived, hempty] at hmem
      cases hmem

/-- Where nobody can go on, everything is handled that comes before a `Shutdown`. -/
theorem server_of_stuck
    (hr : Run HaskellPrintServer.step anyStep (HaskellPrintServer.start program) h s)
    (hstuck : ∀ t, HaskellPrintServer.step s t = none) :
    handled h = numbered 0 (mailed h) ∧
      ((∃ counter, s.control none = .serving counter ∧ .Shutdown ∉ mailed h ∧
        s.content .mailbox = none) ∨
      s.control none = .stopped ∧ .Shutdown ∈ mailed h) := by
  have hserver := (ok_run hr).server
  have hmailed : mailed h = taken h ++ (s.content .mailbox).toList := flow hr .mailbox
  generalize hcontrol : s.control none = k at hserver ⊢
  cases hserver with
  | serving hno hhandled =>
      have hempty : s.content .mailbox = none :=
        MVar.empty_of_stuck (by rw [hcontrol]; rfl) (hstuck none)
      rw [hempty, Option.toList, List.append_nil] at hmailed
      rw [hmailed]
      exact ⟨hhandled, Or.inl ⟨_, rfl, hno, hempty⟩⟩
  | replying before text c n htaken hno hhandled =>
      obtain ⟨y, hy⟩ := MVar.full_of_stuck (by rw [hcontrol]; rfl) (hstuck none)
      rw [empty_of_replying hr hcontrol] at hy
      cases hy
  | stopped before htaken hno hhandled =>
      rw [htaken, List.append_assoc] at hmailed
      rw [hmailed, hhandled]
      exact ⟨(numbered_shutdown hno 0 _).symm, Or.inr ⟨rfl, by simp⟩⟩

/-- What the server has to do for what is in the mailbox. -/
def messageWeight : Option (Message κ) → ℕ
  | some (.PrintJob _ _ _) => 2
  | some .Shutdown => 1
  | none => 0

/-- A reply variable is not the mailbox. -/
theorem mailbox_set {c : κ} {n : ℕ} {x : Option String} {k : Control κ} :
    (s.set (.reply c n) x t k).content .mailbox = s.content .mailbox :=
  MVar.State.set_content_of_ne (by exact nofun)

/-- The number of steps that are to come, at most. -/
def Control.toDo : Control κ → ℕ
  | .serving _ => 0
  | .replying _ _ _ _ => 1
  | .stopped => 0
  | .calls _ _ rest => 4 * rest.length
  | .discarding _ _ rest => 4 * rest.length + 1
  | .asking _ _ rest => 4 * rest.length + 1

/-- Every move leaves less to be done. -/
theorem toDo_moves (hs : Moves s t e s') : ∃ v x k, s' = s.set v x t k ∧
    messageWeight (s'.content .mailbox) + k.toDo <
      messageWeight (s.content .mailbox) + (s.control t).toDo := by
  cases hs with
  | takesJob counter text c n hcontrol hcontent =>
      refine ⟨_, _, _, rfl, ?_⟩
      rw [MVar.State.set_content_self, hcontrol, hcontent]
      exact Nat.lt_succ_self 1
  | takesShutdown counter hcontrol hcontent =>
      refine ⟨_, _, _, rfl, ?_⟩
      rw [MVar.State.set_content_self, hcontrol, hcontent]
      exact Nat.lt_succ_self 0
  | replies c n output count hcontrol hcontent =>
      refine ⟨_, _, _, rfl, ?_⟩
      rw [mailbox_set, hcontrol]
      exact Nat.lt_succ_self _
  | sends c made call rest hcontrol hcontent =>
      refine ⟨_, _, _, rfl, ?_⟩
      rw [MVar.State.set_content_self, hcontrol, hcontent]
      cases call <;> simp [messageWeight, Call.message, Call.after, Control.toDo] <;> omega
  | discards c n rest hcontrol =>
      refine ⟨_, _, _, rfl, ?_⟩
      rw [mailbox_set, hcontrol]
      exact Nat.lt_succ_self _
  | receives c n rest output hcontrol hcontent =>
      refine ⟨_, _, _, rfl, ?_⟩
      rw [mailbox_set, hcontrol]
      exact Nat.lt_succ_self _

/-- Every run comes to an end. -/
theorem halts [Fintype κ] (s : State κ) : Halts HaskellPrintServer.step s := by
  apply halts_of_measure (fun _ => True)
    (fun s => messageWeight (s.content .mailbox) + ∑ t, (s.control t).toDo) _ trivial
  intro s t e s' _ hs
  obtain ⟨v, x, k, rfl, hlt⟩ := toDo_moves (moves_step hs)
  have hsum := Monitor.sum_update_add Control.toDo s.control t k
  refine ⟨trivial, ?_⟩
  show _ + ∑ u, (Function.update s.control t k u).toDo < _ + ∑ u, (s.control u).toDo
  omega

/-- **The print server.** -/
theorem printServer_correct [Fintype κ] (program : κ → List Call) :
    Halts HaskellPrintServer.step (HaskellPrintServer.start program) ∧
    ∀ h s, Run HaskellPrintServer.step anyStep (HaskellPrintServer.start program) h s →
      (∀ c, mailedBy c h <+: messages c 0 (program c)) ∧
      handled h <+: numbered 0 (mailed h) ∧
      (∀ c n output, output ∈ received c n h → ((c, n), output) ∈ handled h) ∧
      (∀ c n output count, s.control none = .replying c n output count →
        s.content (.reply c n) = none) ∧
      ((∀ t, HaskellPrintServer.step s t = none) →
        handled h = numbered 0 (mailed h) ∧
        ((∃ counter, s.control none = .serving counter) ∧
            (∀ c, ∃ made, s.control (some c) = .calls c made []) ∨
          s.control none = .stopped ∧ ∀ c, Waits h s c (s.control (some c)))) := by
  refine ⟨halts _, fun h s hr => ?_⟩
  have hok := ok_run hr
  refine ⟨fun c => ?_, ?_, fun c n output => handled_of_received hr,
    fun c n output count => empty_of_replying hr, fun hstuck => ?_⟩
  · obtain ⟨made, unused, rest, hm⟩ := (hok.client c).made
    exact ⟨_, hm.program⟩
  · have hmailed : mailed h = taken h ++ (s.content .mailbox).toList := flow hr .mailbox
    rw [hmailed]
    exact hok.server.handled_le.trans (numbered_mono (List.prefix_append _ _) 0)
  · obtain ⟨hhandled, ⟨counter, hcontrol, hno, hempty⟩ | ⟨hcontrol, -⟩⟩ :=
      server_of_stuck hr hstuck
    · refine ⟨hhandled, Or.inl ⟨⟨counter, hcontrol⟩, fun c => ?_⟩⟩
      have hwaits := waits_of_stuck hr hstuck c
      have hnumbers := hok.client c
      generalize hc : s.control (some c) = k at hwaits hnumbers ⊢
      cases hwaits with
      | returned made => exact ⟨made, rfl⟩
      | mailing made call rest hfull => exact absurd hempty hfull
      | asking n rest hnot =>
          -- its job has been put into the mailbox, and so it is handled
          obtain ⟨text, hjob⟩ := hnumbers.job
          obtain ⟨output, hin⟩ := mem_numbered hno 0 hjob
          rw [← hhandled] at hin
          exact absurd hin (hnot output)
    · exact ⟨hhandled, Or.inr ⟨hcontrol, waits_of_stuck hr hstuck⟩⟩

/-! ## The demo -/

/-- What `main` calls: it tells and asks, and shuts the server down in the end. -/
def mainCalls (jobs : List (String ⊕ String)) : List Call :=
  jobs.map (Sum.elim .tell .ask) ++ [.shutdown]

/-- `main` has returned. -/
def Returned (s : State Unit) : Prop := ∃ made, s.control (some ()) = .calls () made []

/-- Whether a client has made all its calls. -/
def Control.hasReturned : Control κ → Bool
  | .calls _ _ [] => true
  | _ => false

/-- `main` has returned when it has made all its calls. -/
theorem hasReturned_iff {s : State Unit} :
    (s.control (some ())).hasReturned = true ↔ Returned s := by
  constructor
  · intro hreturned
    cases hcontrol : s.control (some ()) with
    | calls c made rest =>
        rw [hcontrol] at hreturned
        cases rest with
        | nil => exact ⟨made, hcontrol⟩
        | cons call rest => cases hreturned
    | _ =>
        rw [hcontrol] at hreturned
        cases hreturned
  · rintro ⟨made, hcontrol⟩
    rw [hcontrol]
    rfl

instance (s : State Unit) : Decidable (Returned s) := decidable_of_iff _ hasReturned_iff

/-- The steps of the program, which ends when `main` returns, whatever the server is doing. -/
def mainStep : State Unit → Option Unit → Option (Event Unit × State Unit) :=
  guarded HaskellPrintServer.step fun s _ => ¬ Returned s

/-- The messages of some jobs. -/
def jobMessages (made : ℕ) : List (String ⊕ String) → List (Message Unit)
  | [] => []
  | job :: jobs => .PrintJob (job.elim id id) () made :: jobMessages (made + 1) jobs

/-- The replies to some jobs. -/
def replies (jobs : List (String ⊕ String)) : List ((Unit × ℕ) × String) :=
  numbered 0 (jobMessages 0 jobs)

/-- What `main` mails: its jobs, and then `Shutdown`. -/
theorem messages_mainCalls (made : ℕ) (jobs : List (String ⊕ String)) :
    messages () made (mainCalls jobs) = jobMessages made jobs ++ [.Shutdown] := by
  induction jobs generalizing made with
  | nil => rfl
  | cons job jobs ih =>
      cases job with
      | inl text => exact congrArg (Message.PrintJob text () made :: ·) (ih (made + 1))
      | inr text => exact congrArg (Message.PrintJob text () made :: ·) (ih (made + 1))

/-- No job is a `Shutdown`. -/
theorem shutdown_notMem (made : ℕ) (jobs : List (String ⊕ String)) :
    .Shutdown ∉ jobMessages made jobs := by
  induction jobs generalizing made with
  | nil => exact List.not_mem_nil
  | cons job jobs ih => simpa [jobMessages] using ih (made + 1)

/-- One job more. -/
theorem jobMessages_concat (made : ℕ) (jobs : List (String ⊕ String)) (job : String ⊕ String) :
    jobMessages made (jobs ++ [job]) =
      jobMessages made jobs ++ [.PrintJob (job.elim id id) () (made + jobs.length)] := by
  induction jobs generalizing made with
  | nil => rfl
  | cons first jobs ih =>
      rw [List.cons_append, jobMessages, ih, jobMessages, List.length_cons, List.cons_append,
        Nat.add_right_comm, Nat.add_assoc]

/-! ### Who has asked has got the reply -/

/-- The variables of the asks among some calls. -/
def askNumbers (made : ℕ) : List Call → List ℕ
  | [] => []
  | .tell _ :: rest => askNumbers (made + 1) rest
  | .ask _ :: rest => made :: askNumbers (made + 1) rest
  | .shutdown :: rest => askNumbers made rest

/-- Those that have not got their replies yet. -/
def Control.asksLeft : Control κ → List ℕ
  | .calls _ made rest => askNumbers made rest
  | .discarding _ n rest => askNumbers (n + 1) rest
  | .asking _ n rest => n :: askNumbers (n + 1) rest
  | _ => []

/-- Every ask of a client has got its reply, or is still to come. -/
def AsksOk (program : κ → List Call) (h : List (Event κ)) (s : State κ) : Prop :=
  ∀ c, ∀ n ∈ askNumbers 0 (program c),
    received c n h ≠ [] ∨ n ∈ (s.control (some c)).asksLeft

/-- What is left of them after a step. -/
theorem asksLeft_step (hok : Ok program h s) (hs : HaskellPrintServer.step s t = some (e, s'))
    (c : κ) {n : ℕ} (hn : n ∈ (s.control (some c)).asksLeft) :
    received c n (h ++ [e]) ≠ [] ∨ n ∈ (s'.control (some c)).asksLeft := by
  cases moves_step hs with
  | takesJob counter text c' n' hcontrol hcontent =>
      obtain rfl : t = none := hok.owner hcontrol
      exact Or.inr (by rwa [MVar.State.set_control_of_ne (Option.some_ne_none c)])
  | takesShutdown counter hcontrol hcontent =>
      obtain rfl : t = none := hok.owner hcontrol
      exact Or.inr (by rwa [MVar.State.set_control_of_ne (Option.some_ne_none c)])
  | replies c' n' output count hcontrol hcontent =>
      obtain rfl : t = none := hok.owner hcontrol
      exact Or.inr (by rwa [MVar.State.set_control_of_ne (Option.some_ne_none c)])
  | sends c' made call rest hcontrol hcontent =>
      obtain rfl : t = some c' := hok.owner hcontrol
      by_cases hne : some c = some c'
      · cases hne
        rw [hcontrol] at hn
        rw [MVar.State.set_control_self]
        cases call <;> exact Or.inr hn
      · exact Or.inr (by rwa [MVar.State.set_control_of_ne hne])
  | discards c' n' rest hcontrol =>
      obtain rfl : t = some c' := hok.owner hcontrol
      by_cases hne : some c = some c'
      · cases hne
        rw [hcontrol] at hn
        rw [MVar.State.set_control_self]
        exact Or.inr hn
      · exact Or.inr (by rwa [MVar.State.set_control_of_ne hne])
  | receives c' n' rest output hcontrol hcontent =>
      obtain rfl : t = some c' := hok.owner hcontrol
      by_cases hne : some c = some c'
      · cases hne
        rw [hcontrol] at hn
        rcases List.mem_cons.mp hn with rfl | hn
        · -- this is the reply
          left
          rw [received_snoc, MVar.takenFrom_takes]
          simp
        · rw [MVar.State.set_control_self]
          exact Or.inr hn
      · exact Or.inr (by rwa [MVar.State.set_control_of_ne hne])

/-- The books of the replies hold in every run. -/
theorem asks_run
    (hr : Run HaskellPrintServer.step anyStep (HaskellPrintServer.start program) h s) :
    AsksOk program h s := by
  have hboth : Ok program h s ∧ AsksOk program h s := by
    refine hr.invariant (fun h s => Ok program h s ∧ AsksOk program h s)
      ⟨Ok.start program, fun _ _ hn => Or.inr hn⟩ ?_
    rintro h s t e s' ⟨hok, hasks⟩ - hs
    refine ⟨hok.step hs, fun c n hn => ?_⟩
    rcases hasks c n hn with hreceived | hleft
    · left
      rw [received_snoc]
      exact fun hnil => hreceived (List.append_eq_nil_iff.mp hnil).1
    · exact asksLeft_step hok hs c hleft
  exact hboth.2

/-- The last job of `main`, if it is an ask. -/
theorem mem_askNumbers (made : ℕ) (jobs : List (String ⊕ String)) (text : String) :
    made + jobs.length ∈ askNumbers made (mainCalls (jobs ++ [.inr text])) := by
  induction jobs generalizing made with
  | nil => exact List.mem_cons_self
  | cons job jobs ih =>
      have hrest := ih (made + 1)
      rw [Nat.add_right_comm, Nat.add_assoc] at hrest
      cases job with
      | inl _ => exact hrest
      | inr _ => exact List.mem_cons_of_mem made hrest

/-! ### The end of `main` -/

/-- All messages are those of the only client. -/
theorem mailed_eq [Subsingleton κ] (c : κ)
    (hr : Run HaskellPrintServer.step anyStep (HaskellPrintServer.start program) h s) :
    mailed h = mailedBy c h := by
  have hboth : Ok program h s ∧ mailed h = mailedBy c h := by
    refine hr.invariant (fun h s => Ok program h s ∧ mailed h = mailedBy c h)
      ⟨Ok.start program, rfl⟩ ?_
    rintro h s t e s' ⟨hok, heq⟩ _ hs
    refine ⟨hok.step hs, ?_⟩
    rw [mailed_snoc, heq, mailedBy_snoc]
    congr 1
    cases moves_step hs with
    | sends c' made call rest hcontrol hcontent =>
        obtain rfl : t = some c' := hok.owner hcontrol
        obtain rfl := Subsingleton.elim c c'
        rw [sentBy_own, MVar.putInto_puts]
    | replies c' n output count hcontrol hcontent =>
        obtain rfl : t = none := hok.owner hcontrol
        rfl
    | _ => rfl
  exact hboth.2

/-- If nobody can go on, not even the server, then `main` has returned. -/
theorem returned_of_stuck {jobs : List (String ⊕ String)} {h : List (Event Unit)} {s : State Unit}
    (hr : Run HaskellPrintServer.step anyStep
      (HaskellPrintServer.start fun _ : Unit => mainCalls jobs) h s)
    (hstuck : ∀ t, HaskellPrintServer.step s t = none) : Returned s := by
  have hmailed := mailed_eq () hr
  have hclient := (ok_run hr).client ()
  have hwaits := waits_of_stuck hr hstuck ()
  have hno := shutdown_notMem 0 jobs
  unfold Returned
  generalize hcontrol : s.control (some ()) = k at hclient hwaits ⊢
  obtain ⟨hhandled, ⟨counter, -, hno', hempty⟩ | ⟨-, hshutdown⟩⟩ := server_of_stuck hr hstuck
  · -- the mailbox is empty, and all jobs in it have been replied to
    cases hwaits with
    | returned made => exact ⟨made, rfl⟩
    | mailing made call rest hfull => exact absurd hempty hfull
    | asking n rest hnot =>
        obtain ⟨text, hjob⟩ := hclient.job
        obtain ⟨output, hin⟩ := mem_numbered hno' 0 hjob
        exact absurd (hhandled ▸ hin) (hnot output)
  · -- the `Shutdown` is the last message of `main`
    have hlast : ∀ made rest, mailed h ++ messages () made rest =
        jobMessages 0 jobs ++ [.Shutdown] →
          messages () made rest = [] ∧ mailed h = jobMessages 0 jobs ++ [.Shutdown] := by
      intro made rest heq
      rcases List.eq_nil_or_concat' (messages () made rest) with hnil | ⟨front, m, hlast⟩
      · rw [hnil, List.append_nil] at heq
        exact ⟨hnil, heq⟩
      · rw [hlast, ← List.append_assoc] at heq
        obtain ⟨hfront, -⟩ := List.append_inj' heq rfl
        exact absurd (hfront ▸ List.mem_append_left _ hshutdown) hno
    cases hwaits with
    | returned made => exact ⟨made, rfl⟩
    | mailing made call rest hfull =>
        cases hclient with
        | calls _ _ hm =>
            have hprogram := hm.program
            rw [← hmailed, messages_mainCalls] at hprogram
            obtain ⟨hnil, -⟩ := hlast _ _ hprogram
            cases call <;> cases hnil
    | asking n rest hnot =>
        obtain ⟨text, hjob⟩ := hclient.job
        cases hclient with
        | asking _ _ hm =>
            have hprogram := hm.program
            rw [← hmailed, messages_mainCalls] at hprogram
            obtain ⟨-, hmailed'⟩ := hlast _ _ hprogram
            rw [hmailed'] at hjob hhandled
            have hin : Message.PrintJob text () n ∈ jobMessages 0 jobs := by simpa using hjob
            obtain ⟨output, hmem⟩ := mem_numbered hno 0 hin
            rw [numbered_shutdown hno] at hhandled
            exact absurd (hhandled ▸ hmem) (hnot output)

/-- When `main` has returned, it has put everything into the mailbox. -/
theorem mailed_of_returned {jobs : List (String ⊕ String)} {h : List (Event Unit)} {s : State Unit}
    (hr : Run HaskellPrintServer.step anyStep
      (HaskellPrintServer.start fun _ : Unit => mainCalls jobs) h s) (hreturned : Returned s) :
    mailed h = jobMessages 0 jobs ++ [.Shutdown] := by
  obtain ⟨made, hcontrol⟩ := hreturned
  have hclient := (ok_run hr).client ()
  rw [hcontrol] at hclient
  cases hclient with
  | calls _ _ hm =>
      have hprogram := hm.program
      rwa [← mailed_eq () hr, messages_mainCalls, messages, List.append_nil] at hprogram

/-- **What has been replied to when `main` returns.**  The server has taken all jobs, since the
`Shutdown` has found room in the mailbox.  It may still have the last one in hand, unless `main` has
waited for the reply. -/
theorem handled_of_returned {jobs : List (String ⊕ String)} {h : List (Event Unit)} {s : State Unit}
    (hr : Run HaskellPrintServer.step anyStep
      (HaskellPrintServer.start fun _ : Unit => mainCalls jobs) h s) (hreturned : Returned s) :
    handled h = replies jobs ∨
      ∃ front text, jobs = front ++ [.inl text] ∧ handled h = replies front := by
  have hmailed := mailed_of_returned hr hreturned
  have hflow : mailed h = taken h ++ (s.content .mailbox).toList := flow hr .mailbox
  rw [hmailed] at hflow
  have hserver := (ok_run hr).server
  -- if no `Shutdown` has been taken, it is in the mailbox, and all else has been taken
  have htaken : .Shutdown ∉ taken h → taken h = jobMessages 0 jobs := by
    intro hno
    cases hcontent : s.content .mailbox with
    | none =>
        rw [hcontent, Option.toList, List.append_nil] at hflow
        rw [← hflow] at hno
        exact absurd (List.mem_append_right _ List.mem_cons_self) hno
    | some m =>
        rw [hcontent] at hflow
        exact (List.append_inj' hflow rfl).1.symm
  generalize hcontrol : s.control none = k at hserver
  cases hserver with
  | serving hno hhandled =>
      left
      rw [hhandled, htaken hno]
      rfl
  | stopped before hbefore hno hhandled =>
      left
      have hall : before ++ .Shutdown :: (s.content .mailbox).toList =
          jobMessages 0 jobs ++ [.Shutdown] := by
        rw [hflow, hbefore, List.append_assoc]
        rfl
      rw [hhandled, ← numbered_shutdown hno 0 (s.content .mailbox).toList, hall,
        numbered_shutdown (shutdown_notMem 0 jobs)]
      rfl
  | replying before text c n hbefore hno hhandled =>
      right
      have hno' : .Shutdown ∉ taken h := by
        rw [hbefore]
        simpa using hno
      have hjobs := htaken hno'
      rcases List.eq_nil_or_concat' jobs with rfl | ⟨front, job, rfl⟩
      · rw [hbefore] at hjobs
        simp [jobMessages] at hjobs
      · rw [hbefore, jobMessages_concat] at hjobs
        obtain ⟨hfront, hlast⟩ := List.append_inj' hjobs rfl
        have hn : n = 0 + front.length := by
          simp only [List.cons.injEq, Message.PrintJob.injEq, and_true] at hlast
          exact hlast.2.2
        cases job with
        | inl text' => exact ⟨front, text', rfl, by rw [hhandled, hfront]; rfl⟩
        | inr text' =>
            -- `main` has got the reply to an ask, but the server has not given it
            exfalso
            have hasks := asks_run hr () n (hn ▸ mem_askNumbers 0 front text')
            obtain ⟨made, hmain⟩ := hreturned
            rw [hmain] at hasks
            rcases hasks with hreceived | hnone
            · obtain ⟨output, hin⟩ := List.exists_mem_of_ne_nil _ hreceived
              exact notMem_of_replying hr hcontrol output (handled_of_received hr hin)
            · cases hnone

/-- **The demo.**  The program comes to its end under every schedule, that is, `main` returns; then
everything has been put into the mailbox, and every job has been replied to in order, except perhaps
the last one, if it is told. -/
theorem main_completes (jobs : List (String ⊕ String)) :
    Halts mainStep (HaskellPrintServer.start fun _ : Unit => mainCalls jobs) ∧
    ∀ h s, Run mainStep anyStep (HaskellPrintServer.start fun _ : Unit => mainCalls jobs) h s →
      (∀ t, mainStep s t = none) →
        Returned s ∧ mailed h = jobMessages 0 jobs ++ [.Shutdown] ∧
        (handled h = replies jobs ∨
          ∃ front text, jobs = front ++ [.inl text] ∧ handled h = replies front) := by
  refine ⟨(halts _).restrict _, fun h s hr hend => ?_⟩
  have hr' : Run HaskellPrintServer.step anyStep _ h s :=
    (run_of_guarded hr).strengthen fun _ _ _ _ _ _ _ _ => trivial
  have hreturned : Returned s := by
    by_contra hnot
    exact hnot (returned_of_stuck hr' fun t => (if_pos hnot).symm.trans (hend t))
  exact ⟨hreturned, mailed_of_returned hr' hreturned, handled_of_returned hr' hreturned⟩

/-- The server has only taken the job when `main` returns. -/
example : (replay mainStep (HaskellPrintServer.start fun _ : Unit => mainCalls [.inl "a"])
    [some (), none, some (), some ()]).map (fun r => (r.2.control (some ())).hasReturned) =
      some true ∧
    (replay mainStep (HaskellPrintServer.start fun _ : Unit => mainCalls [.inl "a"])
      [some (), none, some (), some ()]).map (fun r => (handled r.1).length) = some 0 := by
  decide

end HaskellPrintServer

end Actor
