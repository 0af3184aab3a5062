/-
# The print server with an MVar (`haskell/actor/PrintServer.hs`)

The mailbox is one `MVar`.  `tell` and `ask` put a job with a new, empty variable for the reply into
it; `ask` then takes the reply, and `tell` looks once whether there is one and throws it away.
`printServerLoop` takes a message, puts the reply, and goes on with the next number, until it takes
a `Shutdown`.  Any number of clients make any calls.

* `Moves`, `moves_step` : what a step does;
* `Ok`, `ok_run` : what holds in every state of every run, of the jobs that the server has taken and
  replied to, and of the variables and the calls of each client.
-/
import Cocurrency.Lib.Halting
import Cocurrency.Lib.MonitorHalts
import Cocurrency.Lib.MVar
import Mathlib.Data.Fintype.BigOperators
import Mathlib.Data.List.Range

namespace Actor

namespace HaskellPrintServer

/-! ## The program -/

/-- The reply to a job goes into the `number`-th variable that `client` has made. -/
inductive Message (κ : Type) where
  | PrintJob (text : String) (client : κ) (number : ℕ)
  | Shutdown

/-- The variables: the mailbox, and one for each reply, which is numbered by the client that makes
it. -/
inductive Var (κ : Type) where
  | mailbox
  | reply (client : κ) (number : ℕ)
  deriving DecidableEq

/-- What is in them. -/
@[reducible] def Value {κ : Type} : Var κ → Type
  | .mailbox => Message κ
  | .reply _ _ => String

/-- What a client calls. -/
inductive Call where
  | tell (text : String)
  | ask (text : String)
  | shutdown

/-- Where a thread is in its code. -/
inductive Control (κ : Type) where
  | serving (counter : ℕ)
  /-- The server has printed `output`. -/
  | replying (client : κ) (number : ℕ) (output : String) (count : ℕ)
  | stopped
  /-- A client that has made so many variables, and the calls that it still makes. -/
  | calls (client : κ) (made : ℕ) (rest : List Call)
  /-- In `tell`, after the job is put. -/
  | discarding (client : κ) (number : ℕ) (rest : List Call)
  | asking (client : κ) (number : ℕ) (rest : List Call)

variable {κ : Type}

/-- The next thing that a thread does. -/
abbrev Instr (κ : Type) := MVar.Instr (Var κ) Value (Control κ)

/-- The line that the server prints and answers with. -/
def outputText (count : ℕ) (text : String) : String := s!"[PrintServer] #{count} printed: {text}"

/-- `printServerLoop`: it takes a message, and prints if it is a job. -/
def printServerLoop (counter : ℕ) : Instr κ :=
  .take .mailbox fun
    | .PrintJob text client number =>
        .replying client number (outputText (counter + 1) text) (counter + 1)
    | .Shutdown => .stopped

/-- `tell` makes a reply variable and puts the job into the mailbox; nobody reads the variable. -/
def tell (client : κ) (made : ℕ) (text : String) (rest : List Call) : Instr κ :=
  .put .mailbox (.PrintJob text client made) (.discarding client made rest)

/-- `ask` makes a reply variable, puts the job into the mailbox and takes the reply. -/
def ask (client : κ) (made : ℕ) (text : String) (rest : List Call) : Instr κ :=
  .put .mailbox (.PrintJob text client made) (.asking client made rest)

/-- `shutdown` puts a message into the mailbox that is not a job. -/
def shutdown (client : κ) (made : ℕ) (rest : List Call) : Instr κ :=
  .put .mailbox .Shutdown (.calls client made rest)

/-- The code of the server and of the clients. -/
def code : Control κ → Instr κ
  | .serving counter => printServerLoop counter
  | .replying client number output count => .put (.reply client number) output (.serving count)
  | .stopped => .finished
  | .calls _ _ [] => .finished
  | .calls client made (.tell text :: rest) => tell client made text rest
  | .calls client made (.ask text :: rest) => ask client made text rest
  | .calls client made (.shutdown :: rest) => shutdown client made rest
  | .discarding client number rest =>
      .tryTake (.reply client number) fun _ => .calls client (number + 1) rest
  | .asking client number rest =>
      .take (.reply client number) fun _ => .calls client (number + 1) rest

/-- The server and the clients. -/
abbrev State (κ : Type) := MVar.State (Option κ) (Var κ) Value (Control κ)

/-- What a step shows. -/
abbrev Event (κ : Type) := MVar.Event (Option κ) (Var κ) Value

/-- The server waits for its first message, and the clients have made no call. -/
def start (program : κ → List Call) : State κ where
  content _ := none
  control
    | none => .serving 0
    | some c => .calls c 0 (program c)

variable [DecidableEq κ]

/-- The next step of a thread, unless it waits or has finished. -/
def step (s : State κ) (t : Option κ) : Option (Event κ × State κ) := MVar.step code s t

/-! ## What a step does -/

/-- What a call puts into the mailbox. -/
def Call.message (client : κ) (made : ℕ) : Call → Message κ
  | .tell text => .PrintJob text client made
  | .ask text => .PrintJob text client made
  | .shutdown => .Shutdown

/-- Where it goes on. -/
def Call.after (client : κ) (made : ℕ) (rest : List Call) : Call → Control κ
  | .tell _ => .discarding client made rest
  | .ask _ => .asking client made rest
  | .shutdown => .calls client made rest

omit [DecidableEq κ] in
/-- Each call begins with its message. -/
theorem code_calls (client : κ) (made : ℕ) (call : Call) (rest : List Call) :
    code (.calls client made (call :: rest)) =
      .put .mailbox (call.message client made) (call.after client made rest) := by
  cases call <;> rfl

/-- What a step of thread `t` does. -/
inductive Moves (s : State κ) (t : Option κ) : Event κ → State κ → Prop
  | takesJob (counter : ℕ) (text : String) (c : κ) (n : ℕ) : s.control t = .serving counter →
      s.content .mailbox = some (.PrintJob text c n) →
      Moves s t (.takes t .mailbox (.PrintJob text c n))
        (s.set .mailbox none t (.replying c n (outputText (counter + 1) text) (counter + 1)))
  | takesShutdown (counter : ℕ) : s.control t = .serving counter →
      s.content .mailbox = some .Shutdown →
      Moves s t (.takes t .mailbox .Shutdown) (s.set .mailbox none t .stopped)
  | replies (c : κ) (n : ℕ) (output : String) (count : ℕ) :
      s.control t = .replying c n output count → s.content (.reply c n) = none →
      Moves s t (.puts t (.reply c n) output) (s.set (.reply c n) (some output) t (.serving count))
  | sends (c : κ) (made : ℕ) (call : Call) (rest : List Call) :
      s.control t = .calls c made (call :: rest) → s.content .mailbox = none →
      Moves s t (.puts t .mailbox (call.message c made))
        (s.set .mailbox (some (call.message c made)) t (call.after c made rest))
  | discards (c : κ) (n : ℕ) (rest : List Call) : s.control t = .discarding c n rest →
      Moves s t (.tries t (.reply c n) (s.content (.reply c n)))
        (s.set (.reply c n) none t (.calls c (n + 1) rest))
  | receives (c : κ) (n : ℕ) (rest : List Call) (output : String) :
      s.control t = .asking c n rest → s.content (.reply c n) = some output →
      Moves s t (.takes t (.reply c n) output) (s.set (.reply c n) none t (.calls c (n + 1) rest))

variable {s s' : State κ} {t : Option κ} {e : Event κ}

/-- A step is one of these moves. -/
theorem moves_step (hs : step s t = some (e, s')) : Moves s t e s' := by
  cases hcontrol : s.control t with
  | serving counter =>
      obtain ⟨m, hm, rfl, rfl⟩ := MVar.step_take (by rw [hcontrol]; rfl) hs
      cases m with
      | PrintJob text c n => exact .takesJob counter text c n hcontrol hm
      | Shutdown => exact .takesShutdown counter hcontrol hm
  | replying c n output count =>
      obtain ⟨hempty, rfl, rfl⟩ := MVar.step_put (by rw [hcontrol]; rfl) hs
      exact .replies c n output count hcontrol hempty
  | stopped =>
      have hnone : step s t = none := MVar.step_finished (by rw [hcontrol]; rfl)
      rw [hnone] at hs
      cases hs
  | calls c made rest =>
      cases rest with
      | nil =>
          have hnone : step s t = none := MVar.step_finished (by rw [hcontrol]; rfl)
          rw [hnone] at hs
          cases hs
      | cons call rest =>
          obtain ⟨hempty, rfl, rfl⟩ := MVar.step_put (by rw [hcontrol, code_calls]) hs
          exact .sends c made call rest hcontrol hempty
  | discarding c n rest =>
      obtain ⟨rfl, rfl⟩ := MVar.step_tryTake (by rw [hcontrol]; rfl) hs
      exact .discards c n rest hcontrol
  | asking c n rest =>
      obtain ⟨output, hfull, rfl, rfl⟩ := MVar.step_take (by rw [hcontrol]; rfl) hs
      exact .receives c n rest output hcontrol hfull

/-! ## What has happened -/

/-- What has been put into the mailbox. -/
def mailed (h : List (Event κ)) : List (Message κ) := h.filterMap (MVar.Event.putInto Var.mailbox)

/-- What the server has taken. -/
def taken (h : List (Event κ)) : List (Message κ) := h.filterMap (MVar.Event.takenFrom Var.mailbox)

/-- What has been taken out of a variable for replies. -/
def received (c : κ) (n : ℕ) (h : List (Event κ)) : List String :=
  h.filterMap (MVar.Event.takenFrom (Var.reply c n))

/-- The replies, each with its variable. -/
def handled (h : List (Event κ)) : List ((κ × ℕ) × String) :=
  h.filterMap fun
    | .puts _ (.reply c n) output => some ((c, n), output)
    | _ => none

/-- The message that client `c` puts into the mailbox. -/
def sentBy (c : κ) : Event κ → Option (Message κ)
  | .puts (some c') .mailbox m => if c' = c then some m else none
  | _ => none

/-- What a client has put into the mailbox. -/
def mailedBy (c : κ) (h : List (Event κ)) : List (Message κ) := h.filterMap (sentBy c)

/-- The variables of a client in messages. -/
def numbersOf (c : κ) (ms : List (Message κ)) : List ℕ :=
  ms.filterMap fun
    | .PrintJob _ c' n => if c' = c then some n else none
    | .Shutdown => none

/-- The messages of the calls that a client still makes. -/
def messages (c : κ) (made : ℕ) : List Call → List (Message κ)
  | [] => []
  | .tell text :: rest => .PrintJob text c made :: messages c (made + 1) rest
  | .ask text :: rest => .PrintJob text c made :: messages c (made + 1) rest
  | .shutdown :: rest => .Shutdown :: messages c made rest

/-- The replies to messages that are handled one after the other, until the first `Shutdown`. -/
def numbered (counter : ℕ) : List (Message κ) → List ((κ × ℕ) × String)
  | [] => []
  | .PrintJob text c n :: ms =>
      ((c, n), outputText (counter + 1) text) :: numbered (counter + 1) ms
  | .Shutdown :: _ => []

omit [DecidableEq κ] in
/-- The jobs of two pieces, numbered on. -/
theorem numbered_append {ms : List (Message κ)} (hms : .Shutdown ∉ ms) (counter : ℕ)
    (more : List (Message κ)) :
    numbered counter (ms ++ more) = numbered counter ms ++ numbered (counter + ms.length) more := by
  induction ms generalizing counter with
  | nil => rfl
  | cons m ms ih =>
      rw [List.mem_cons, not_or] at hms
      cases m with
      | Shutdown => exact absurd rfl hms.1
      | PrintJob text c n =>
          rw [List.cons_append, numbered, numbered, ih hms.2, List.length_cons, List.cons_append,
            Nat.add_right_comm, Nat.add_assoc]

omit [DecidableEq κ] in
/-- After a `Shutdown` nothing is handled. -/
theorem numbered_shutdown {ms : List (Message κ)} (hms : .Shutdown ∉ ms) (counter : ℕ)
    (more : List (Message κ)) : numbered counter (ms ++ .Shutdown :: more) = numbered counter ms :=
  (numbered_append hms counter _).trans (List.append_nil _)

omit [DecidableEq κ] in
/-- More jobs are numbered on from those that are there. -/
theorem numbered_mono {ms ms' : List (Message κ)} (h : ms <+: ms') (counter : ℕ) :
    numbered counter ms <+: numbered counter ms' := by
  obtain ⟨more, rfl⟩ := h
  induction ms generalizing counter with
  | nil => exact List.nil_prefix
  | cons m ms ih =>
      cases m with
      | Shutdown => exact List.prefix_refl _
      | PrintJob text c n => exact List.cons_prefix_cons.mpr ⟨rfl, ih (counter + 1)⟩

/-! ## What holds in every state -/

/-- What has been taken, and what the server has made of it. -/
inductive ServerOk (taken : List (Message κ)) (handled : List ((κ × ℕ) × String)) :
    Control κ → Prop
  | serving : .Shutdown ∉ taken → handled = numbered 0 taken →
      ServerOk taken handled (.serving taken.length)
  | replying (before : List (Message κ)) (text : String) (c : κ) (n : ℕ) :
      taken = before ++ [.PrintJob text c n] → .Shutdown ∉ before → handled = numbered 0 before →
      ServerOk taken handled
        (.replying c n (outputText (before.length + 1) text) (before.length + 1))
  | stopped (before : List (Message κ)) : taken = before ++ [.Shutdown] → .Shutdown ∉ before →
      handled = numbered 0 before → ServerOk taken handled .stopped

/-- A client has made so many variables and not used those from `unused` on, and what it has put
into the mailbox and what is still to come are its program. -/
structure Made (program : List Call) (h : List (Event κ)) (c : κ) (made unused : ℕ)
    (rest : List Call) : Prop where
  program : mailedBy c h ++ messages c made rest = messages c 0 program
  numbers : numbersOf c (mailed h) = List.range made
  unused : ∀ n, unused ≤ n → received c n h = []

/-- Where a client is, against what it has mailed and received. -/
inductive ClientOk (program : List Call) (h : List (Event κ)) (c : κ) : Control κ → Prop
  | calls (made : ℕ) (rest : List Call) : Made program h c made made rest →
      ClientOk program h c (.calls c made rest)
  | discarding (n : ℕ) (rest : List Call) : Made program h c (n + 1) n rest →
      ClientOk program h c (.discarding c n rest)
  | asking (n : ℕ) (rest : List Call) : Made program h c (n + 1) n rest →
      ClientOk program h c (.asking c n rest)

/-- The server and the clients, each against the history. -/
structure Ok (program : κ → List Call) (h : List (Event κ)) (s : State κ) : Prop where
  server : ServerOk (taken h) (handled h) (s.control none)
  client : ∀ c, ClientOk (program c) h c (s.control (some c))

/-- At the start nothing has been mailed. -/
theorem Ok.start (program : κ → List Call) : Ok program [] (start program) where
  server := .serving List.not_mem_nil rfl
  client c := .calls 0 (program c) ⟨rfl, rfl, fun _ _ => rfl⟩

variable {program : κ → List Call} {h : List (Event κ)}

/-- What an event means to a client that has no part in it. -/
structure Foreign (c : κ) (e : Event κ) : Prop where
  mailed : ∀ h, mailedBy c (h ++ [e]) = mailedBy c h
  numbers : ∀ h, numbersOf c (HaskellPrintServer.mailed (h ++ [e])) =
    numbersOf c (HaskellPrintServer.mailed h)
  received : ∀ n h, received c n (h ++ [e]) = HaskellPrintServer.received c n h

/-- What others do leaves a client's calls alone. -/
theorem Made.foreign {program : List Call} {c : κ} {made unused : ℕ} {rest : List Call}
    (hm : Made program h c made unused rest) (he : Foreign c e) :
    Made program (h ++ [e]) c made unused rest where
  program := by rw [he.mailed, hm.program]
  numbers := by rw [he.numbers, hm.numbers]
  unused n hn := by rw [he.received, hm.unused n hn]

/-- What others do leaves a client where it is. -/
theorem ClientOk.foreign {program : List Call} {c : κ} {k : Control κ}
    (hc : ClientOk program h c k) (he : Foreign c e) : ClientOk program (h ++ [e]) c k := by
  cases hc with
  | calls made rest hm => exact .calls made rest (hm.foreign he)
  | discarding n rest hm => exact .discarding n rest (hm.foreign he)
  | asking n rest hm => exact .asking n rest (hm.foreign he)

/-! ## What an event adds -/

/-- What is mailed, one event more. -/
theorem mailed_snoc (h : List (Event κ)) (e : Event κ) :
    mailed (h ++ [e]) = mailed h ++ (e.putInto Var.mailbox).toList :=
  MVar.filterMap_snoc _ h e

/-- What the server has taken, one event more. -/
theorem taken_snoc (h : List (Event κ)) (e : Event κ) :
    taken (h ++ [e]) = taken h ++ (e.takenFrom Var.mailbox).toList :=
  MVar.filterMap_snoc _ h e

/-- What is received on a reply variable, one event more. -/
theorem received_snoc (c : κ) (n : ℕ) (h : List (Event κ)) (e : Event κ) :
    received c n (h ++ [e]) = received c n h ++ (e.takenFrom (Var.reply c n)).toList :=
  MVar.filterMap_snoc _ h e

omit [DecidableEq κ] in
/-- The server replies to a job. -/
theorem handled_reply (h : List (Event κ)) (t : Option κ) (c : κ) (n : ℕ) (output : String) :
    handled (h ++ [.puts t (.reply c n) output]) = handled h ++ [((c, n), output)] :=
  MVar.filterMap_snoc _ h _

omit [DecidableEq κ] in
/-- Taking is not replying. -/
theorem handled_takes (h : List (Event κ)) (t : Option κ) (v : Var κ) (x : Value v) :
    handled (h ++ [.takes t v x]) = handled h :=
  (MVar.filterMap_snoc _ h _).trans (List.append_nil _)

omit [DecidableEq κ] in
/-- Nor is trying to take. -/
theorem handled_tries (h : List (Event κ)) (t : Option κ) (v : Var κ) (x : Option (Value v)) :
    handled (h ++ [.tries t v x]) = handled h :=
  (MVar.filterMap_snoc _ h _).trans (List.append_nil _)

omit [DecidableEq κ] in
/-- Nor is mailing. -/
theorem handled_mailbox (h : List (Event κ)) (t : Option κ) (m : Message κ) :
    handled (h ++ [.puts t .mailbox m]) = handled h :=
  (MVar.filterMap_snoc _ h _).trans (List.append_nil _)

/-- What a client has mailed, one event more. -/
theorem mailedBy_snoc (c : κ) (h : List (Event κ)) (e : Event κ) :
    mailedBy c (h ++ [e]) = mailedBy c h ++ (sentBy c e).toList :=
  MVar.filterMap_snoc _ h e

/-- The client itself has mailed it. -/
theorem sentBy_own (c : κ) (m : Message κ) : sentBy c (.puts (some c) .mailbox m) = some m :=
  if_pos rfl

/-- The numbers of two pieces. -/
theorem numbersOf_append (c : κ) (ms more : List (Message κ)) :
    numbersOf c (ms ++ more) = numbersOf c ms ++ numbersOf c more :=
  List.filterMap_append

/-- A call makes at most one variable. -/
theorem message_cons (c : κ) (made : ℕ) (call : Call) (rest : List Call) :
    ∃ made', messages c made (call :: rest) =
        call.message c made :: messages c made' rest ∧
      List.range made ++ numbersOf c [call.message c made] = List.range made' ∧
      (∀ c', c' ≠ c → numbersOf c' [call.message c made] = []) ∧
      ((made' = made ∧ call.after c made rest = .calls c made rest) ∨
        (made' = made + 1 ∧ (call.after c made rest = .discarding c made rest ∨
          call.after c made rest = .asking c made rest))) := by
  have hown : ∀ text, numbersOf c [Message.PrintJob text c made] = [made] := by
    intro text
    simp [numbersOf]
  have hforeign : ∀ text, ∀ c', c' ≠ c → numbersOf c' [Message.PrintJob text c made] = [] := by
    intro text c' hne
    simp [numbersOf, Ne.symm hne]
  cases call with
  | tell text =>
      refine ⟨made + 1, rfl, ?_, hforeign text, Or.inr ⟨rfl, Or.inl rfl⟩⟩
      rw [Call.message, hown, List.range_succ]
  | ask text =>
      refine ⟨made + 1, rfl, ?_, hforeign text, Or.inr ⟨rfl, Or.inr rfl⟩⟩
      rw [Call.message, hown, List.range_succ]
  | shutdown => exact ⟨made, rfl, List.append_nil _, fun _ _ => rfl, Or.inl ⟨rfl, rfl⟩⟩

/-- The server takes a message. -/
theorem foreign_server (c : κ) (m : Message κ) : Foreign c (.takes none .mailbox m) where
  mailed h := (mailedBy_snoc c h _).trans (List.append_nil _)
  numbers h := by
    rw [mailed_snoc]
    exact congrArg _ (List.append_nil _)
  received n h := (received_snoc c n h _).trans (List.append_nil _)

/-- The server replies. -/
theorem foreign_reply (c c' : κ) (n : ℕ) (output : String) :
    Foreign c (.puts none (.reply c' n) output) where
  mailed h := (mailedBy_snoc c h _).trans (List.append_nil _)
  numbers h := by
    rw [mailed_snoc]
    exact congrArg _ (List.append_nil _)
  received n h := (received_snoc c n h _).trans (List.append_nil _)

/-- Another client mails a message of its own. -/
theorem foreign_sends {c c' : κ} (hne : c ≠ c') {m : Message κ} (hm : numbersOf c [m] = []) :
    Foreign c (.puts (some c') .mailbox m) where
  mailed h := by
    have hnone : sentBy c (.puts (some c') .mailbox m) = none := if_neg (Ne.symm hne)
    rw [mailedBy_snoc, hnone]
    exact List.append_nil _
  numbers h := by
    rw [mailed_snoc]
    exact (numbersOf_append c _ [m]).trans (by rw [hm, List.append_nil])
  received n h := (received_snoc c n h _).trans (List.append_nil _)

/-- What a client does with its `n`-th variable: it looks into it, or takes the reply. -/
inductive Uses (c : κ) (n : ℕ) : Event κ → Prop
  | discards (x : Option String) : Uses c n (.tries (some c) (.reply c n) x)
  | receives (output : String) : Uses c n (.takes (some c) (.reply c n) output)

namespace Uses

variable {c : κ} {n : ℕ}

/-- Only this variable is touched. -/
theorem received (he : Uses c n e) {c' : κ} {n' : ℕ} (hne : Var.reply c n ≠ Var.reply c' n')
    (h : List (Event κ)) : received c' n' (h ++ [e]) = HaskellPrintServer.received c' n' h := by
  rw [received_snoc]
  cases he with
  | discards x =>
      rw [MVar.takenFrom_tries_of_ne hne]
      exact List.append_nil _
  | receives output =>
      rw [MVar.takenFrom_takes_of_ne hne]
      exact List.append_nil _

/-- Nothing is put into the mailbox. -/
theorem mailed (he : Uses c n e) (h : List (Event κ)) :
    mailed (h ++ [e]) = HaskellPrintServer.mailed h := by
  rw [mailed_snoc]
  cases he <;> exact List.append_nil _

/-- By no client. -/
theorem mailedBy (he : Uses c n e) (c' : κ) (h : List (Event κ)) :
    mailedBy c' (h ++ [e]) = HaskellPrintServer.mailedBy c' h := by
  rw [mailedBy_snoc]
  cases he <;> exact List.append_nil _

/-- Nothing is taken out of it. -/
theorem taken (he : Uses c n e) (h : List (Event κ)) :
    taken (h ++ [e]) = HaskellPrintServer.taken h := by
  rw [taken_snoc]
  cases he <;> exact List.append_nil _

omit [DecidableEq κ] in
/-- Nothing is replied to. -/
theorem handled (he : Uses c n e) (h : List (Event κ)) :
    handled (h ++ [e]) = HaskellPrintServer.handled h := by
  cases he with
  | discards x => exact handled_tries h _ _ _
  | receives output => exact handled_takes h _ _ _

/-- The other clients have no part in it. -/
theorem foreign (he : Uses c n e) {c' : κ} (hne : c' ≠ c) : Foreign c' e where
  mailed := he.mailedBy c'
  numbers h := by rw [he.mailed]
  received n' h := he.received (fun heq => hne (Var.reply.inj heq).1.symm) h

end Uses

/-! ## What a step keeps -/

/-- Who can be at a point. -/
def Control.owner : Control κ → Option κ
  | .calls c _ _ => some c
  | .discarding c _ _ => some c
  | .asking c _ _ => some c
  | _ => none

omit [DecidableEq κ] in
/-- The server is nobody's client. -/
theorem ServerOk.owner {taken : List (Message κ)} {handled : List ((κ × ℕ) × String)}
    {k : Control κ} (hk : ServerOk taken handled k) : k.owner = none := by
  cases hk <;> rfl

/-- A client's code is its own. -/
theorem ClientOk.owner {program : List Call} {c : κ} {k : Control κ}
    (hk : ClientOk program h c k) : k.owner = some c := by
  cases hk <;> rfl

/-- Whose code a thread runs. -/
theorem Ok.owner (hok : Ok program h s) {k : Control κ} (hk : s.control t = k) : t = k.owner := by
  subst hk
  cases t with
  | none => exact hok.server.owner.symm
  | some c => exact (hok.client c).owner.symm

/-- The server makes a step. -/
theorem Ok.of_server (hok : Ok program h s) {v : Var κ} {x : Option (Value v)} {k : Control κ}
    (hforeign : ∀ c, Foreign c e) (hserver : ServerOk (taken (h ++ [e])) (handled (h ++ [e])) k) :
    Ok program (h ++ [e]) (s.set v x none k) where
  server := by rwa [MVar.State.set_control_self]
  client c := by
    rw [MVar.State.set_control_of_ne (Option.some_ne_none c)]
    exact (hok.client c).foreign (hforeign c)

/-- A client makes a step. -/
theorem Ok.of_client (hok : Ok program h s) {c : κ} {v : Var κ} {x : Option (Value v)}
    {k : Control κ} (hforeign : ∀ c', c' ≠ c → Foreign c' e) (htaken : taken (h ++ [e]) = taken h)
    (hhandled : handled (h ++ [e]) = handled h) (hclient : ClientOk (program c) (h ++ [e]) c k) :
    Ok program (h ++ [e]) (s.set v x (some c) k) where
  server := by
    rw [MVar.State.set_control_of_ne (Option.some_ne_none c).symm, htaken, hhandled]
    exact hok.server
  client c' := by
    by_cases hne : c' = c
    · subst hne
      rwa [MVar.State.set_control_self]
    · rw [MVar.State.set_control_of_ne (by simpa using hne)]
      exact (hok.client c').foreign (hforeign c' hne)

/-- A client has used its last variable. -/
theorem Made.used {program : List Call} {c : κ} {n : ℕ} {rest : List Call}
    (hm : Made program h c (n + 1) n rest) (he : Uses c n e) :
    Made program (h ++ [e]) c (n + 1) (n + 1) rest where
  program := by rw [he.mailedBy, hm.program]
  numbers := by rw [he.mailed, hm.numbers]
  unused k hk := by
    rw [he.received (fun heq => by have := (Var.reply.inj heq).2; omega), hm.unused k (by omega)]

/-! ### One lemma for each kind of step -/

section Steps

variable {c : κ}

/-- The server takes a job. -/
theorem Ok.takesJob (hok : Ok program h s) {counter : ℕ}
    (hcontrol : s.control none = .serving counter) (text : String) (n : ℕ) :
    Ok program (h ++ [.takes none .mailbox (.PrintJob text c n)])
      (s.set .mailbox none none
        (.replying c n (outputText (counter + 1) text) (counter + 1))) := by
  have hserver := hok.server
  refine hok.of_server (fun c => foreign_server c _) ?_
  rw [hcontrol] at hserver
  cases hserver with
  | serving hno hhandled =>
      rw [taken_snoc, handled_takes]
      exact .replying (taken h) text c n rfl hno hhandled

/-- The server takes the `Shutdown`. -/
theorem Ok.takesShutdown (hok : Ok program h s) {counter : ℕ}
    (hcontrol : s.control none = .serving counter) :
    Ok program (h ++ [.takes none .mailbox .Shutdown]) (s.set .mailbox none none .stopped) := by
  have hserver := hok.server
  refine hok.of_server (fun c => foreign_server c _) ?_
  rw [hcontrol] at hserver
  cases hserver with
  | serving hno hhandled =>
      rw [taken_snoc, handled_takes]
      exact .stopped (taken h) rfl hno hhandled

/-- The server replies. -/
theorem Ok.replies (hok : Ok program h s) {n count : ℕ} {output : String}
    (hcontrol : s.control none = .replying c n output count) :
    Ok program (h ++ [.puts none (.reply c n) output])
      (s.set (.reply c n) (some output) none (.serving count)) := by
  have hserver := hok.server
  refine hok.of_server (fun c' => foreign_reply c' c n output) ?_
  rw [hcontrol] at hserver
  cases hserver with
  | replying before text _ _ htaken hno hhandled =>
      have hall : taken (h ++ [.puts none (.reply c n) (outputText (before.length + 1) text)]) =
          before ++ [.PrintJob text c n] := by
        rw [taken_snoc, htaken]
        exact List.append_nil _
      have hcount : before.length + 1 = (before ++ [Message.PrintJob text c n]).length := by simp
      rw [hall, handled_reply, hhandled, hcount]
      refine .serving (by simpa using hno) ?_
      rw [numbered_append hno, Nat.zero_add, List.length_append]
      rfl

/-- A client makes a call. -/
theorem Ok.sends (hok : Ok program h s) {made : ℕ} {call : Call} {rest : List Call}
    (hcontrol : s.control (some c) = .calls c made (call :: rest)) :
    Ok program (h ++ [.puts (some c) .mailbox (call.message c made)])
      (s.set .mailbox (some (call.message c made)) (some c) (call.after c made rest)) := by
  have hclient := hok.client c
  rw [hcontrol] at hclient
  obtain ⟨made', hmessages, hnumbers, hothers, hafter⟩ := message_cons c made call rest
  have htaken : taken (h ++ [.puts (some c) .mailbox (call.message c made)]) = taken h := by
    rw [taken_snoc]
    exact List.append_nil _
  refine hok.of_client (fun c' hne => foreign_sends hne (hothers c' hne)) htaken
    (handled_mailbox h _ _) ?_
  cases hclient with
  | calls _ _ hm =>
      have hm' : Made (program c) (h ++ [.puts (some c) .mailbox (call.message c made)]) c
          made' made rest := by
        refine ⟨?_, ?_, fun n hn => ?_⟩
        · rw [mailedBy_snoc, sentBy_own, Option.toList, List.append_assoc,
            List.singleton_append, ← hmessages, hm.program]
        · rw [mailed_snoc, ← hnumbers, ← hm.numbers]
          exact numbersOf_append c _ _
        · rw [received_snoc, hm.unused n hn]
          rfl
      rcases hafter with ⟨rfl, hk⟩ | ⟨rfl, hk | hk⟩
      · rw [hk]
        exact .calls _ rest hm'
      · rw [hk]
        exact .discarding _ rest hm'
      · rw [hk]
        exact .asking _ rest hm'

/-- A client looks into its variable, or takes the reply, and goes on. -/
theorem Ok.uses (hok : Ok program h s) {n : ℕ} {rest : List Call} (he : Uses c n e)
    (hm : Made (program c) h c (n + 1) n rest) :
    Ok program (h ++ [e]) (s.set (.reply c n) none (some c) (.calls c (n + 1) rest)) :=
  hok.of_client (fun _ hne => he.foreign hne) (he.taken h) (he.handled h)
    (.calls (n + 1) rest (hm.used he))

end Steps

/-- **The invariant is kept.** -/
theorem Ok.step (hok : Ok program h s) (hs : step s t = some (e, s')) :
    Ok program (h ++ [e]) s' := by
  cases moves_step hs with
  | takesJob counter text c n hcontrol hcontent =>
      obtain rfl : t = none := hok.owner hcontrol
      exact hok.takesJob hcontrol text n
  | takesShutdown counter hcontrol hcontent =>
      obtain rfl : t = none := hok.owner hcontrol
      exact hok.takesShutdown hcontrol
  | replies c n output count hcontrol hcontent =>
      obtain rfl : t = none := hok.owner hcontrol
      exact hok.replies hcontrol
  | sends c made call rest hcontrol hcontent =>
      obtain rfl : t = some c := hok.owner hcontrol
      exact hok.sends hcontrol
  | discards c n rest hcontrol =>
      obtain rfl : t = some c := hok.owner hcontrol
      have hclient := hok.client c
      rw [hcontrol] at hclient
      cases hclient with
      | discarding _ _ hm => exact hok.uses (.discards _) hm
  | receives c n rest output hcontrol hcontent =>
      obtain rfl : t = some c := hok.owner hcontrol
      have hclient := hok.client c
      rw [hcontrol] at hclient
      cases hclient with
      | asking _ _ hm => exact hok.uses (.receives _) hm

/-- It holds in every state of every run. -/
theorem ok_run (hr : Run HaskellPrintServer.step anyStep (HaskellPrintServer.start program) h s) :
    Ok program h s :=
  hr.invariant (Ok program) (Ok.start program) fun _ _ _ _ _ hok _ hs => hok.step hs

end HaskellPrintServer

end Actor
