/-
# The print server as a goroutine (`go/actor/main.go`)

`printServerActor` ranges over its inbox, and answers a message on the channel that comes with it;
`main` makes such a channel for each of its messages, and waits for the reply before the next one.

* `rounds` : each message is answered with its number;
* `actor_determined` : under every schedule all messages are answered, in order, and both goroutines
  return.
-/
import Cocurrency.Lib.Network

namespace Actor

namespace GoPrintServer

open Network (Instr Process Reaches both lines both_left both_right lines_append)

/-- `main` and the goroutine of `newPrintServer`. -/
inductive Goroutine where
  | main
  | server
  deriving DecidableEq

/-- The inbox, and the channels that `main` makes. -/
inductive Chan where
  | inbox
  | reply (i : ℕ)
  deriving DecidableEq

/-- What is sent: on the inbox a `Message`, on the other channels a string. -/
inductive Value where
  | message (content : String) (replyTo : Option ℕ)
  | text (reply : String)
  deriving DecidableEq

/-- Where a goroutine is in its code. -/
inductive Control where
  /-- `main`, about to start the server -/
  | begin (messages : List String)
  /-- `for _, m := range messages`, with the channels made so far -/
  | loop (made : ℕ) (rest : List String)
  /-- `reply := <-replyCh` -/
  | waiting (made : ℕ) (rest : List String)
  | printing (reply : String) (made : ℕ) (rest : List String)
  /-- `wg.Wait()` -/
  | joining
  /-- `for msg := range inbox` -/
  | serving (counter : ℕ)
  | handling (counter : ℕ) (reply : String) (replyTo : Option ℕ)
  /-- `msg.ReplyTo <- reply` -/
  | answering (counter : ℕ) (reply : String) (replyTo : ℕ)
  | closing
  | returned

/-- `fmt.Sprintf("[%d] 打印: %s", counter, msg.Content)`. -/
def replyText (counter : ℕ) (content : String) : String := s!"[{counter}] 打印: {content}"

/-- The line of `main`. -/
def receivedText (reply : String) : String := s!"  收到回复: {reply}"

/-- What is printed at the end. -/
def closedText : String := "打印服务器关闭"

/-- `main` and `printServerActor`. -/
def code : Control → Instr Goroutine Chan Value String Control
  | .begin messages => .spawn .server (.loop 0 messages)
  | .loop made (m :: rest) => .send .inbox (.message m (some made)) (.waiting (made + 1) rest)
  | .loop _ [] => .close .inbox .joining
  | .waiting made rest =>
      .recv (.reply (made - 1)) fun
        | some (.text reply) => .printing reply made rest
        | _ => .printing "" made rest
  | .printing reply made rest => .print (receivedText reply) (.loop made rest)
  | .joining => .join [.server] .returned
  | .serving counter =>
      .recv .inbox fun
        | some (.message content replyTo) =>
            .handling (counter + 1) (replyText (counter + 1) content) replyTo
        | some (.text _) => .serving counter
        | none => .closing
  | .handling counter reply replyTo =>
      .print reply (match replyTo with
        | some c => .answering counter reply c
        | none => .serving counter)
  | .answering counter reply c => .send (.reply c) (.text reply) (.serving counter)
  | .closing => .print closedText .returned
  | .returned => .finished

/-- The goroutines over the channels `inbox` and one for each reply. -/
def net (messages : List String) : Network Goroutine Chan Value String Control where
  code := code
  entry
    | .main => .begin messages
    | .server => .serving 0
  starter
    | .main => none
    | .server => some .main
  sender
    | .inbox => .main
    | .reply _ => .server
  receiver
    | .inbox => .server
    | .reply _ => .main
  capacity
    | .inbox => 100
    | .reply _ => 0

/-! ## One round -/

/-- What the server answers to the messages, of which `i` have been answered before. -/
def replies (i : ℕ) (messages : List String) : List String :=
  messages.mapIdx fun j m => replyText (i + j + 1) m

/-- `main` at `k`, when it has sent the messages `ms`, and received the replies. -/
def mainAt (k : Control) (ms : List Value) (got : ℕ) (closed : Bool) :
    Process Goroutine Chan Value Control where
  phase := .running k
  sent
    | .inbox => ms
    | .reply _ => []
  taken
    | .inbox => 0
    | .reply j => if j < got then 1 else 0
  closed
    | .inbox => closed
    | .reply _ => false
  started := Function.update (fun _ => false) .server true

/-- The server at `k`, when it has received `got` messages, and sent the replies `rs`. -/
def serverAt (k : Control) (got : ℕ) (rs : List String) :
    Process Goroutine Chan Value Control where
  phase := .running k
  sent
    | .inbox => []
    | .reply j => (rs[j]?.map .text).toList
  taken
    | .inbox => got
    | .reply _ => 0
  closed _ := false
  started _ := false

/-- `main` has started the server. -/
theorem started_mainAt (k : Control) (ms : List Value) (got : ℕ) (closed : Bool) :
    (mainAt k ms got closed).started .server = true := by
  simp [mainAt]

theorem update_inbox (k : Control) (ms ms' : List Value) (got : ℕ) (closed : Bool) :
    Function.update (mainAt k ms got closed).sent .inbox ms' = (mainAt k ms' got closed).sent := by
  funext c
  cases c with
  | inbox => simp [mainAt]
  | reply j => simp [mainAt]

theorem update_closed (k : Control) (ms : List Value) (got : ℕ) :
    Function.update (mainAt k ms got false).closed .inbox true = (mainAt k ms got true).closed := by
  funext c
  cases c with
  | inbox => simp [mainAt]
  | reply j => simp [mainAt]

theorem update_got (k : Control) (ms : List Value) (got : ℕ) (closed : Bool) :
    Function.update (mainAt k ms got closed).taken (.reply got) 1 =
      (mainAt k ms (got + 1) closed).taken := by
  funext c
  cases c with
  | inbox => simp [mainAt]
  | reply j =>
      rcases eq_or_ne j got with rfl | hne
      · rw [Function.update_self]
        exact (if_pos (Nat.lt_succ_self j)).symm
      · rw [Function.update_of_ne (fun h => hne (Chan.reply.inj h))]
        have hiff : j < got ↔ j < got + 1 := by omega
        show (if j < got then 1 else 0) = if j < got + 1 then 1 else 0
        simp only [hiff]

theorem update_taken (k : Control) (got got' : ℕ) (rs : List String) :
    Function.update (serverAt k got rs).taken .inbox got' = (serverAt k got' rs).taken := by
  funext c
  cases c with
  | inbox => simp [serverAt]
  | reply j => simp [serverAt]

theorem update_reply (k : Control) (got : ℕ) (rs : List String) (r : String) :
    Function.update (serverAt k got rs).sent (.reply rs.length) [.text r] =
      (serverAt k got (rs ++ [r])).sent := by
  funext c
  cases c with
  | inbox => simp [serverAt]
  | reply j =>
      rcases Nat.lt_trichotomy j rs.length with hlt | rfl | hlt
      · simp [serverAt, Function.update, Nat.ne_of_lt hlt, List.getElem?_append_left hlt]
      · simp [serverAt]
      · have hnone : (rs ++ [r])[j]? = none := by
          rw [List.getElem?_eq_none]
          simp
          omega
        have hnone' : rs[j]? = none := List.getElem?_eq_none (Nat.le_of_lt hlt)
        simp [serverAt, Function.update, Nat.ne_of_gt hlt, hnone, hnone']

section Steps

variable (messages : List String) {A B : Process Goroutine Chan Value Control} {k : Control}

/-- A step of `main`. -/
theorem main_step (A' : Process Goroutine Chan Value Control)
    (e : Network.Event Goroutine Chan Value String) (hphase : A.phase = .running k)
    (he : (net messages).exec (both (net messages).start .main .server A B) .main (code k) =
      some (e, A')) :
    (net messages).Reaches (both (net messages).start .main .server A B)
      (both (net messages).start .main .server A' B) (lines .main .server e.output.toList []) := by
  have hne : Goroutine.main ≠ .server := by decide
  apply Reaches.left hne
  rw [Network.processStep_running rfl (by rw [both_left hne]; exact hphase)]
  exact he

/-- A step of the server, which has been started. -/
theorem server_step (B' : Process Goroutine Chan Value Control)
    (e : Network.Event Goroutine Chan Value String) (hstarted : A.started .server = true)
    (hphase : B.phase = .running k)
    (he : (net messages).exec (both (net messages).start .main .server A B) .server (code k) =
      some (e, B')) :
    (net messages).Reaches (both (net messages).start .main .server A B)
      (both (net messages).start .main .server A B') (lines .main .server [] e.output.toList) := by
  have hne : Goroutine.main ≠ .server := by decide
  apply Reaches.right hne
  rw [Network.processStep_running _ (by rw [both_right]; exact hphase)]
  · exact he
  · show (both (net messages).start .main .server A B .main).started .server = true
    rw [both_left hne]
    exact hstarted

/-- `main` sends to the inbox. -/
theorem sender_inbox : (net messages).sender .inbox = .main := rfl

/-- The server receives from it. -/
theorem receiver_inbox : (net messages).receiver .inbox = .server := rfl

/-- The server sends the replies. -/
theorem sender_reply (i : ℕ) :
    (net messages).sender (.reply i) = .server := rfl

/-- `main` receives them. -/
theorem receiver_reply (i : ℕ) :
    (net messages).receiver (.reply i) = .main := rfl

/-- A send of `main` on the inbox. -/
theorem main_sends (m : Value) (next : Control) (ms : List Value) (got : ℕ)
    (hk : code k = .send .inbox m next) (hB : ms.length ≤ B.taken .inbox + 99) :
    (net messages).Reaches (both (net messages).start .main .server (mainAt k ms got false) B)
      (both (net messages).start .main .server (mainAt next (ms ++ [m]) got false) B)
      (lines .main .server [] []) := by
  have hne : Goroutine.main ≠ .server := by decide
  have hoffer := main_step messages (A := mainAt k ms got false) (B := B)
    { mainAt k (ms ++ [m]) got false with phase := .sending .inbox next } (.offers .inbox m) rfl
    (by
      rw [hk, Network.exec_send (sender_inbox messages) (by rw [both_left hne]; rfl),
        both_left hne, update_inbox]
      rfl)
  have hreturn : (net messages).Reaches
      (both (net messages).start .main .server
        { mainAt k (ms ++ [m]) got false with phase := .sending .inbox next } B)
      (both (net messages).start .main .server (mainAt next (ms ++ [m]) got false) B)
      (lines .main .server [] []) := by
    apply Reaches.left (e := .sends .inbox) hne
    rw [Network.processStep_sending .inbox next rfl (by rw [both_left hne]), both_left hne,
      receiver_inbox, both_right, if_pos]
    · rfl
    · show (ms ++ [m]).length ≤ B.taken .inbox + 100
      rw [List.length_append, List.length_singleton]
      omega
  exact (hoffer.trans hreturn).cast (lines_append _ _ _ _)

/-- The server takes a message and prints its reply. -/
theorem server_takes {i : ℕ} {ms : List Value} (rs : List String) (content : String)
    (replyTo : Option ℕ) (hms : ms.length = i) (hA : A.started .server = true)
    (hsent : A.sent .inbox = ms ++ [.message content replyTo]) (next : Control)
    (hnext : code (.handling (i + 1) (replyText (i + 1) content) replyTo) =
      .print (replyText (i + 1) content) next) :
    (net messages).Reaches (both (net messages).start .main .server A (serverAt (.serving i) i rs))
      (both (net messages).start .main .server A (serverAt next (i + 1) rs))
      (lines .main .server [] [replyText (i + 1) content]) := by
  have hne : Goroutine.main ≠ .server := by decide
  have htake := server_step messages (A := A) (B := serverAt (.serving i) i rs)
    (serverAt (.handling (i + 1) (replyText (i + 1) content) replyTo) (i + 1) rs)
    (.receives .inbox (.message content replyTo)) hA rfl
    (by
      rw [show code (.serving i) = .recv .inbox _ from rfl,
        Network.exec_recv (receiver_inbox messages) (v := .message content replyTo), both_right,
        update_taken]
      · rfl
      · rw [show (net messages).sender .inbox = .main from rfl, both_left hne, hsent, both_right,
          show (serverAt (.serving i) i rs).taken .inbox = i from rfl, ← hms]
        exact List.getElem?_concat_length)
  have hprint := server_step messages (A := A)
    (B := serverAt (.handling (i + 1) (replyText (i + 1) content) replyTo) (i + 1) rs)
    (serverAt next (i + 1) rs) (.prints (replyText (i + 1) content)) hA rfl
    (by
      rw [hnext, Network.exec, both_right]
      rfl)
  exact (htake.trans hprint).cast (lines_append _ _ _ _)

/-- A line of `main`. -/
theorem main_prints (line : String) (next : Control) (ms : List Value) (got : ℕ) (closed : Bool)
    (hk : code k = .print line next) :
    (net messages).Reaches (both (net messages).start .main .server (mainAt k ms got closed) B)
      (both (net messages).start .main .server (mainAt next ms got closed) B)
      (lines .main .server [line] []) := by
  apply main_step messages (k := k) (A := mainAt k ms got closed) (mainAt next ms got closed)
    (.prints line) rfl
  rw [hk, Network.exec, both_left (by decide)]
  rfl

/-- The message of `main` with number `i`. -/
def sentMessage (i : ℕ) (m : String) : Value := .message m (some i)

/-- **One round.** -/
theorem round {ms : List Value} {rs : List String} {i : ℕ} (hms : ms.length = i)
    (hrs : rs.length = i) (m : String) (rest : List String) :
    (net messages).Reaches
      (both (net messages).start .main .server (mainAt (.loop i (m :: rest)) ms i false)
        (serverAt (.serving i) i rs))
      (both (net messages).start .main .server
        (mainAt (.loop (i + 1) rest) (ms ++ [sentMessage i m]) (i + 1) false)
        (serverAt (.serving (i + 1)) (i + 1) (rs ++ [replyText (i + 1) m])))
      (lines .main .server [receivedText (replyText (i + 1) m)] [replyText (i + 1) m]) := by
  have hne : Goroutine.main ≠ .server := by decide
  generalize hms' : ms ++ [sentMessage i m] = ms'
  generalize hreply : replyText (i + 1) m = reply
  have hsend := main_sends messages (B := serverAt (.serving i) i rs) (k := .loop i (m :: rest))
    (sentMessage i m) (.waiting (i + 1) rest) ms i rfl (by rw [hms]; exact Nat.le_add_right i 99)
  have htake := server_takes messages (A := mainAt (.waiting (i + 1) rest) ms' i false) rs m
    (some i) hms (started_mainAt _ _ _ _) hms'.symm (.answering (i + 1) (replyText (i + 1) m) i) rfl
  rw [hms'] at hsend
  rw [hreply] at htake
  -- the reply is offered, received, and the send returns
  have hoffer := server_step messages (A := mainAt (.waiting (i + 1) rest) ms' i false)
    (B := serverAt (.answering (i + 1) reply i) (i + 1) rs)
    { serverAt (.serving (i + 1)) (i + 1) (rs ++ [reply]) with
      phase := .sending (.reply i) (.serving (i + 1)) }
    (.offers (.reply i) (.text reply)) (started_mainAt _ _ _ _) rfl
    (by
      have hnone : (serverAt (.answering (i + 1) reply i) (i + 1) rs).sent (.reply i) = [] := by
        simp [serverAt, ← hrs]
      rw [show code (.answering (i + 1) reply i) = .send (.reply i) _ _ from rfl,
        Network.exec_send (sender_reply messages i) (by rw [both_right]; rfl), both_right, hnone,
        List.nil_append, ← hrs, update_reply]
      rfl)
  have hreceive := main_step messages (A := mainAt (.waiting (i + 1) rest) ms' i false)
    (B := { serverAt (.serving (i + 1)) (i + 1) (rs ++ [reply]) with
      phase := .sending (.reply i) (.serving (i + 1)) })
    (mainAt (.printing reply (i + 1) rest) ms' (i + 1) false)
    (.receives (.reply i) (.text reply)) rfl
    (by
      have hzero : (mainAt (.waiting (i + 1) rest) ms' i false).taken (.reply i) = 0 :=
        if_neg (Nat.lt_irrefl i)
      rw [show code (.waiting (i + 1) rest) = .recv (.reply i) _ from rfl,
        Network.exec_recv (receiver_reply messages i) (v := .text reply), both_left hne, hzero,
        update_got]
      · rfl
      · rw [sender_reply, both_left hne, both_right, hzero]
        simp [serverAt, ← hrs])
  have hreturn : (net messages).Reaches
      (both (net messages).start .main .server
        (mainAt (.printing reply (i + 1) rest) ms' (i + 1) false)
        { serverAt (.serving (i + 1)) (i + 1) (rs ++ [reply]) with
          phase := .sending (.reply i) (.serving (i + 1)) })
      (both (net messages).start .main .server
        (mainAt (.printing reply (i + 1) rest) ms' (i + 1) false)
        (serverAt (.serving (i + 1)) (i + 1) (rs ++ [reply]))) (lines .main .server [] []) := by
    apply Reaches.right (e := .sends (.reply i)) hne
    rw [Network.processStep_sending (.reply i) (.serving (i + 1)) _ (by rw [both_right]),
      both_right, receiver_reply, both_left hne, if_pos]
    · rfl
    · simp [serverAt, mainAt, ← hrs]
    · show (both (net messages).start .main .server _ _ .main).started .server = true
      rw [both_left hne]
      exact started_mainAt _ _ _ _
  have hprint := main_prints messages (k := .printing reply (i + 1) rest)
    (B := serverAt (.serving (i + 1)) (i + 1) (rs ++ [reply])) (receivedText reply)
    (.loop (i + 1) rest) ms' (i + 1) false rfl
  refine (((((hsend.trans htake).trans hoffer).trans hreceive).trans hreturn).trans hprint).cast ?_
  funext t
  cases t
  · simp [lines, Network.Event.output]
  · simp [lines, Network.Event.output]

/-- All rounds. -/
theorem rounds {i : ℕ} (ms : List Value) (rs : List String) (hms : ms.length = i)
    (hrs : rs.length = i) (rest : List String) :
    ∃ ms' rs', ms'.length = i + rest.length ∧ rs'.length = i + rest.length ∧
      (net messages).Reaches
        (both (net messages).start .main .server (mainAt (.loop i rest) ms i false)
          (serverAt (.serving i) i rs))
        (both (net messages).start .main .server
          (mainAt (.loop (i + rest.length) []) ms' (i + rest.length) false)
          (serverAt (.serving (i + rest.length)) (i + rest.length) rs'))
        (lines .main .server ((replies i rest).map receivedText) (replies i rest)) := by
  induction rest generalizing ms rs i with
  | nil =>
      refine ⟨ms, rs, hms, hrs, (Reaches.refl _).cast (funext fun t => ?_)⟩
      simp [lines, replies]
  | cons m rest ih =>
      have hfirst := round messages hms hrs m rest
      obtain ⟨ms', rs', hms', hrs', hrest⟩ := ih (i := i + 1) (ms ++ [sentMessage i m])
        (rs ++ [replyText (i + 1) m]) (by simp [hms]) (by simp [hrs])
      have hlen : i + 1 + rest.length = i + (m :: rest).length := by
        rw [List.length_cons]
        omega
      rw [hlen] at hms' hrs' hrest
      refine ⟨ms', rs', hms', hrs', ((hfirst.trans hrest).cast (lines_append _ _ _ _)).cast ?_⟩
      have hreplies : replies i (m :: rest) = replyText (i + 1) m :: replies (i + 1) rest := by
        rw [replies, List.mapIdx_cons]
        refine congrArg _ (congrFun (congrArg _ (funext fun j => funext fun m => ?_)) rest)
        rw [show i + (j + 1) + 1 = i + 1 + j + 1 by omega]
      rw [hreplies, List.map_cons]
      rfl

/-- `main` starts the server. -/
theorem spawns :
    (net messages).Reaches (net messages).start
      (both (net messages).start .main .server (mainAt (.loop 0 messages) [] 0 false)
        (serverAt (.serving 0) 0 [])) fun _ => [] := by
  have hspawn : (net messages).processStep (net messages).start .main =
      some (.spawns .server, mainAt (.loop 0 messages) [] 0 false) := by
    rw [Network.processStep_running (k := .begin messages) rfl rfl]
    have hsent : (mainAt (.loop 0 messages) [] 0 false).sent = fun _ => [] := by
      funext c
      cases c <;> rfl
    have hclosed : (mainAt (.loop 0 messages) [] 0 false).closed = fun _ => false := by
      funext c
      cases c <;> rfl
    have htaken : (mainAt (.loop 0 messages) [] 0 false).taken = fun _ => 0 := by
      funext c
      cases c <;> rfl
    have hprocess : mainAt (.loop 0 messages) [] 0 false =
        ⟨.running (.loop 0 messages), fun _ => [], fun _ => 0, fun _ => false,
          Function.update (fun _ => false) .server true⟩ := by
      rw [← hsent, ← hclosed, ← htaken]
      rfl
    rw [hprocess]
    rfl
  have hreaches := Reaches.quiet hspawn rfl
  have hserver : (net messages).start .server = serverAt (.serving 0) 0 [] := by
    have hsent : (serverAt (.serving 0) 0 []).sent = fun _ => [] := by
      funext c
      cases c <;> rfl
    have htaken : (serverAt (.serving 0) 0 []).taken = fun _ => 0 := by
      funext c
      cases c <;> rfl
    have hprocess : serverAt (.serving 0) 0 [] =
        ⟨.running (.serving 0), fun _ => [], fun _ => 0, fun _ => false, fun _ => false⟩ := by
      rw [← hsent, ← htaken]
      rfl
    rw [hprocess]
    rfl
  have hboth : Function.update (net messages).start .main (mainAt (.loop 0 messages) [] 0 false) =
      both (net messages).start .main .server (mainAt (.loop 0 messages) [] 0 false)
        (serverAt (.serving 0) 0 []) := by
    rw [both, ← hserver]
    exact (Function.update_eq_self_iff.mpr rfl).symm
  rwa [hboth] at hreaches

/-- The end of the loops. -/
theorem closes {ms : List Value} {rs : List String} {n : ℕ} (hms : ms.length = n) :
    (net messages).Reaches
      (both (net messages).start .main .server (mainAt (.loop n []) ms n false)
        (serverAt (.serving n) n rs))
      (both (net messages).start .main .server (mainAt .returned ms n true)
        (serverAt .returned n rs)) (lines .main .server [] [closedText]) := by
  have hne : Goroutine.main ≠ .server := by decide
  have hclose := main_step messages (A := mainAt (.loop n []) ms n false)
    (B := serverAt (.serving n) n rs) (mainAt .joining ms n true) (.closes .inbox) rfl
    (by
      rw [show code (.loop n []) = .close .inbox .joining from rfl,
        Network.exec_close (sender_inbox messages) (by rw [both_left hne]; rfl), both_left hne,
        update_closed]
      rfl)
  have hend := server_step messages (A := mainAt .joining ms n true)
    (B := serverAt (.serving n) n rs) (serverAt .closing n rs) (.ends .inbox)
    (started_mainAt _ _ _ _) rfl
    (by
      rw [show code (.serving n) = .recv .inbox _ from rfl,
        Network.exec_recv_end (receiver_inbox messages) _ _, both_right]
      · rfl
      · rw [sender_inbox, both_left hne, both_right]
        exact List.getElem?_eq_none (Nat.le_of_eq hms)
      · rw [sender_inbox, both_left hne]
        rfl)
  have hprint := server_step messages (A := mainAt .joining ms n true)
    (B := serverAt .closing n rs) (serverAt .returned n rs) (.prints closedText)
    (started_mainAt _ _ _ _) rfl
    (by
      rw [show code .closing = .print closedText .returned from rfl, Network.exec, both_right]
      rfl)
  have hjoin := main_step messages (A := mainAt .joining ms n true)
    (B := serverAt .returned n rs) (mainAt .returned ms n true) .joins rfl
    (by
      rw [show code .joining = .join [.server] .returned from rfl, Network.exec, both_left hne,
        if_pos]
      · rfl
      · rw [List.all_cons, both_right]
        rfl)
  refine (((hclose.trans hend).trans hprint).trans hjoin).cast ?_
  funext t
  cases t
  · simp [lines, Network.Event.output]
  · simp [lines, Network.Event.output]

end Steps

/-- **The actor.**  Under every schedule `main` gets the replies to its messages, each with its
number, in order; nothing is left in a channel, and both goroutines return. -/
theorem actor_determined (messages : List String) :
    ∃ final, (net messages).Determined final
        (lines .main .server ((replies 0 messages).map receivedText)
          (replies 0 messages ++ [closedText])) ∧
      ∀ t, (net messages).isFinished (final t) = true := by
  obtain ⟨ms, rs, hms, -, hrounds⟩ := rounds messages [] [] rfl rfl messages
  have hall := ((spawns messages).trans hrounds).trans (closes messages hms)
  have hfinished : ∀ t, (net messages).isFinished (both (net messages).start .main .server
      (mainAt .returned ms (0 + messages.length) true)
      (serverAt .returned (0 + messages.length) rs) t) = true := by
    intro t
    cases t with
    | main =>
        rw [both_left (by decide)]
        rfl
    | server =>
        rw [both_right]
        rfl
  refine ⟨_, Reaches.determined_of_finished (hall.cast (funext fun t => ?_)) hfinished, hfinished⟩
  cases t
  · simp [lines]
  · simp [lines]

end GoPrintServer

end Actor
