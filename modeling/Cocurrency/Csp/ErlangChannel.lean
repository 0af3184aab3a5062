/-
# The channel process (`erlang/csp/channel_demo.erl`)

`channel_loop` has two places where it receives: its outer `receive`, which takes any message,
and, for a `recv` on an empty buffer, an inner one, which waits for a `send` and leaves all
other messages in the mailbox.

A step is a message that arrives, from any process and at any time, or a message that the
process takes, with the messages that it sends in return.  Requests of one kind are taken
in the order of their arrival (`Books`), so the answers do not depend on how the
two kinds interleave (`run_answers`).
-/
import Cocurrency.Lib.Fifo
import Cocurrency.Lib.Mailbox

namespace Csp

namespace Erlang

/-- What `producer`, `consumer` and others send to the channel; the last component is the
sender's own pid. -/
inductive Msg (π α : Type*) where
  | send (value : α) (pid : π)
  | recv (pid : π)
  | close (pid : π)
  deriving Repr

/-- What the channel sends: `{ok, self()}` or `{value, V, self()}`. -/
inductive Reply (α : Type*) where
  | ok
  | value (v : α)
  deriving Repr

/-- The argument of `channel_loop`. -/
inductive Buffer (α : Type*) where
  | values (vs : List α)
  /-- the atom `closed` -/
  | closed
  deriving Repr

/-- How a process is terminated by an error. -/
inductive Crash where
  /-- `closed ++ [Value]` -/
  | badarg
  /-- no clause of `case Buffer of` matches -/
  | caseClause
  deriving DecidableEq, Repr

/-- Where the process is. -/
inductive Place (π α : Type*) where
  /-- in the outer `receive` of `channel_loop(Buffer)` -/
  | loop (buffer : Buffer α)
  /-- in the inner `receive`, for a `recv` of `pid` -/
  | inner (pid : π)
  | crashed (why : Crash)
  deriving Repr

/-- The channel process. -/
structure Channel (π α : Type*) where
  place : Place π α
  mailbox : List (Msg π α)

/-- A message arrives, or the process takes one. -/
inductive Action (π α : Type*) where
  | arrive (m : Msg π α)
  /-- the process takes a message, and runs up to its next `receive` -/
  | take

/-- What a step shows. -/
inductive Event (π α : Type*) where
  | arrived (m : Msg π α)
  | took (m : Msg π α) (replies : List (π × Reply α))
  deriving Repr

variable {π α : Type*}

/-- The clauses of the outer `receive`, after `m` has been taken. -/
def channelLoop (buffer : Buffer α) (m : Msg π α) : List (π × Reply α) × Place π α :=
  match m, buffer with
  | .send value pid, .values vs => ([(pid, .ok)], .loop (.values (vs ++ [value])))
  | .send _ _, .closed => ([], .crashed .badarg)
  | .recv pid, .values (value :: rest) => ([(pid, .value value)], .loop (.values rest))
  | .recv pid, .values [] => ([], .inner pid)
  | .recv _, .closed => ([], .crashed .caseClause)
  | .close _, _ => ([], .loop .closed)

/-- The one clause of the inner `receive`. -/
def Msg.send? : Msg π α → Option (α × π)
  | .send value pid => some (value, pid)
  | .recv _ | .close _ => none

/-- Who is to receive. -/
def Msg.recv? : Msg π α → Option π
  | .recv pid => some pid
  | .send _ _ | .close _ => none

/-- Is it a `close`?. -/
def Msg.isClose : Msg π α → Bool
  | .close _ => true
  | .send _ _ | .recv _ => false

/-- `channel()`, before any message has arrived. -/
def start : Channel π α := ⟨.loop (.values []), []⟩

/-- The next step, unless no message in the mailbox matches. -/
def step (s : Channel π α) : Action π α → Option (Event π α × Channel π α)
  | .arrive m => some (.arrived m, { s with mailbox := s.mailbox ++ [m] })
  | .take =>
      match s.place with
      | .loop buffer =>
          match Mailbox.select some s.mailbox with
          | some (m, rest) =>
              let r := channelLoop buffer m
              some (.took m r.1, ⟨r.2, rest⟩)
          | none => none
      | .inner pid =>
          match Mailbox.select Msg.send? s.mailbox with
          | some ((value, sender), rest) =>
              some (.took (.send value sender) [(sender, .ok), (pid, .value value)],
                ⟨.loop (.values []), rest⟩)
          | none => none
      | .crashed _ => none

/-! ## What a step does -/

/-- What a step does, clause by clause. -/
inductive Effect (s : Channel π α) : Event π α → Channel π α → Prop
  | arrived (m : Msg π α) : Effect s (.arrived m) { s with mailbox := s.mailbox ++ [m] }
  | buffered (vs : List α) (value : α) (pid : π) (rest : List (Msg π α)) :
      s.place = .loop (.values vs) → s.mailbox = .send value pid :: rest →
      Effect s (.took (.send value pid) [(pid, .ok)]) ⟨.loop (.values (vs ++ [value])), rest⟩
  | answered (value : α) (vs : List α) (pid : π) (rest : List (Msg π α)) :
      s.place = .loop (.values (value :: vs)) → s.mailbox = .recv pid :: rest →
      Effect s (.took (.recv pid) [(pid, .value value)]) ⟨.loop (.values vs), rest⟩
  | waits (pid : π) (rest : List (Msg π α)) :
      s.place = .loop (.values []) → s.mailbox = .recv pid :: rest →
      Effect s (.took (.recv pid) []) ⟨.inner pid, rest⟩
  | passed (pid : π) (value : α) (sender : π) (front back : List (Msg π α)) :
      s.place = .inner pid → s.mailbox = front ++ .send value sender :: back →
      (∀ m ∈ front, m.send? = none) →
      Effect s (.took (.send value sender) [(sender, .ok), (pid, .value value)])
        ⟨.loop (.values []), front ++ back⟩
  | closed (buffer : Buffer α) (pid : π) (rest : List (Msg π α)) :
      s.place = .loop buffer → s.mailbox = .close pid :: rest →
      Effect s (.took (.close pid) []) ⟨.loop .closed, rest⟩
  | badarg (value : α) (pid : π) (rest : List (Msg π α)) :
      s.place = .loop .closed → s.mailbox = .send value pid :: rest →
      Effect s (.took (.send value pid) []) ⟨.crashed .badarg, rest⟩
  | caseClause (pid : π) (rest : List (Msg π α)) :
      s.place = .loop .closed → s.mailbox = .recv pid :: rest →
      Effect s (.took (.recv pid) []) ⟨.crashed .caseClause, rest⟩

variable {s s' : Channel π α} {e : Event π α} {a : Action π α} {h : List (Event π α)}

/-- The outer `receive` takes the first message. -/
theorem select_some {ms rest : List (Msg π α)} {m : Msg π α}
    (h : Mailbox.select some ms = some (m, rest)) : ms = m :: rest := by
  cases ms with
  | nil => cases h
  | cons m' ms =>
      cases h
      rfl

/-- What a step does. -/
theorem effect_step (h : step s a = some (e, s')) : Effect s e s' := by
  unfold step at h
  cases a with
  | arrive m =>
      cases h
      exact .arrived m
  | take =>
      dsimp only at h
      split at h
      · next buffer hplace =>
        split at h
        · next m rest hselect =>
          have hmailbox := select_some hselect
          cases m with
          | send value pid =>
              cases buffer with
              | values vs =>
                  cases h
                  exact .buffered vs value pid rest hplace hmailbox
              | closed =>
                  cases h
                  exact .badarg value pid rest hplace hmailbox
          | recv pid =>
              cases buffer with
              | values vs =>
                  cases vs with
                  | nil =>
                      cases h
                      exact .waits pid rest hplace hmailbox
                  | cons value vs =>
                      cases h
                      exact .answered value vs pid rest hplace hmailbox
              | closed =>
                  cases h
                  exact .caseClause pid rest hplace hmailbox
          | close pid =>
              cases h
              exact .closed buffer pid rest hplace hmailbox
        · cases h
      · next pid hplace =>
        split at h
        · next value sender rest hselect =>
          obtain ⟨front, m, back, hmailbox, rfl, hm, hfront⟩ := Mailbox.exists_of_select hselect
          cases m with
          | send v p =>
              cases hm
              cases h
              exact .passed pid value sender front back hplace hmailbox hfront
          | recv | close => cases hm
        · cases h
      · cases h

/-! ## The books of a run -/

/-- The message that arrives. -/
def Event.arrival : Event π α → Option (Msg π α)
  | .arrived m => some m
  | .took _ _ => none

/-- The message that is taken. -/
def Event.taken : Event π α → Option (Msg π α)
  | .arrived _ => none
  | .took m _ => some m

/-- What is sent back. -/
def Event.replies : Event π α → List (π × Reply α)
  | .arrived _ => []
  | .took _ replies => replies

/-- To whom an acknowledgement is sent. -/
def acked : π × Reply α → Option π
  | (pid, .ok) => some pid
  | (_, .value _) => none

/-- To whom which value is sent. -/
def answer : π × Reply α → Option (π × α)
  | (pid, .value v) => some (pid, v)
  | (_, .ok) => none

/-- The messages that have arrived. -/
def arrivals (h : List (Event π α)) : List (Msg π α) := h.filterMap Event.arrival

/-- The messages that the process has taken. -/
def taken (h : List (Event π α)) : List (Msg π α) := h.filterMap Event.taken

/-- What the process has sent. -/
def replies (h : List (Event π α)) : List (π × Reply α) := h.flatMap Event.replies

/-- The values of the `send` requests among `ms`. -/
def sentValues (ms : List (Msg π α)) : List α := (ms.filterMap Msg.send?).map Prod.fst

/-- Who has sent them. -/
def senders (ms : List (Msg π α)) : List π := (ms.filterMap Msg.send?).map Prod.snd

/-- Who has sent the `recv` requests among `ms`. -/
def receivers (ms : List (Msg π α)) : List π := ms.filterMap Msg.recv?

/-- A message more that has arrived. -/
@[simp] theorem arrivals_snoc (h : List (Event π α)) (e : Event π α) :
    arrivals (h ++ [e]) = arrivals h ++ e.arrival.toList := by
  rw [arrivals, List.filterMap_append]
  cases he : e.arrival <;> simp [arrivals, he]

/-- A message more that has been taken. -/
@[simp] theorem taken_snoc (h : List (Event π α)) (e : Event π α) :
    taken (h ++ [e]) = taken h ++ e.taken.toList := by
  rw [taken, List.filterMap_append]
  cases he : e.taken <;> simp [taken, he]

/-- More that has been sent back. -/
@[simp] theorem replies_snoc (h : List (Event π α)) (e : Event π α) :
    replies (h ++ [e]) = replies h ++ e.replies := by
  simp [replies]

/-- What has been answered, against the requests that have been taken: where the process is tells
what is left over. -/
def Place.Fits (answers : List (π × α)) (receivers : List π) (values : List α) :
    Place π α → Prop
  | .loop (.values vs) => answers.map Prod.fst = receivers ∧ answers.map Prod.snd ++ vs = values
  | .loop .closed =>
      answers.map Prod.fst = receivers ∧ ∃ lost, answers.map Prod.snd ++ lost = values
  | .inner pid => answers.map Prod.fst ++ [pid] = receivers ∧ answers.map Prod.snd = values
  | .crashed _ => True

/-- The process has not been terminated. -/
def Place.Alive : Place π α → Prop
  | .crashed _ => False
  | _ => True

/-- Two lists of answers are one zip, as far as both go. -/
theorem zip_eq_of_append {answers : List (π × α)} {receivers : List π} {values : List α}
    {pids : List π} {vs : List α} (hpids : answers.map Prod.fst ++ pids = receivers)
    (hvs : answers.map Prod.snd ++ vs = values) (hempty : pids = [] ∨ vs = []) :
    answers = receivers.zip values := by
  have hzip : pids.zip vs = [] := by
    rcases hempty with rfl | rfl
    · exact List.zip_nil_left
    · exact List.zip_nil_right
  have hself : (answers.map Prod.fst).zip (answers.map Prod.snd) = answers := by
    rw [List.zip_map', List.map_id']
  have hlength : (answers.map Prod.fst).length = (answers.map Prod.snd).length := by
    rw [List.length_map, List.length_map]
  rw [← hpids, ← hvs, List.zip_append hlength, hzip, hself, List.append_nil]

/-- The requests taken are answered in order. -/
theorem Place.Fits.eq_zip {place : Place π α} {answers : List (π × α)} {receivers : List π}
    {values : List α} (h : place.Fits answers receivers values) (halive : place.Alive) :
    answers = receivers.zip values := by
  cases place with
  | loop buffer =>
      cases buffer with
      | values vs => exact zip_eq_of_append (by rw [List.append_nil]; exact h.1) h.2 (Or.inl rfl)
      | closed =>
          obtain ⟨lost, hlost⟩ := h.2
          exact zip_eq_of_append (by rw [List.append_nil]; exact h.1) hlost (Or.inl rfl)
  | inner pid =>
      exact zip_eq_of_append h.1 (by rw [List.append_nil]; exact h.2) (Or.inr rfl)
  | crashed why => exact halive.elim

/-- The books: requests of either kind are taken in the order of their arrival, every `send` taken
is acknowledged, and every `recv` taken is answered, but for those on which the process waits or
is terminated. -/
structure Books (h : List (Event π α)) (s : Channel π α) : Prop where
  sends : (arrivals h).filterMap Msg.send? =
    (taken h).filterMap Msg.send? ++ s.mailbox.filterMap Msg.send?
  recvs : receivers (arrivals h) = receivers (taken h) ++ receivers s.mailbox
  acks : s.place.Alive → (replies h).filterMap acked = senders (taken h)
  answers : s.place.Fits ((replies h).filterMap answer) (receivers (taken h)) (sentValues (taken h))

/-- Messages of a kind that both `receive`s take, or of one that the inner one leaves, are taken in
order. -/
theorem Effect.mailbox_eq {γ : Type*} (kind : Msg π α → Option γ)
    (hkind : (∀ m, m.send? = none → kind m = none) ∨ ∀ value pid, kind (.send value pid) = none)
    (h : Effect s e s') :
    (s.mailbox ++ e.arrival.toList).filterMap kind =
      (e.taken.toList ++ s'.mailbox).filterMap kind := by
  cases h with
  | arrived m => rfl
  | buffered vs value pid rest _ hmailbox | answered value vs pid rest _ hmailbox
  | waits pid rest _ hmailbox | closed buffer pid rest _ hmailbox
  | badarg value pid rest _ hmailbox | caseClause pid rest _ hmailbox =>
      rw [hmailbox]
      exact congrArg _ (List.append_nil _)
  | passed pid value sender front back _ hmailbox hfront =>
      have hm : kind (.send value sender) = none ∨ ∀ m ∈ front, kind m = none := by
        rcases hkind with hkind | hkind
        · exact Or.inr fun m hmem => hkind m (hfront m hmem)
        · exact Or.inl (hkind value sender)
      calc (s.mailbox ++ []).filterMap kind
          = (front ++ .send value sender :: back).filterMap kind := by
            rw [List.append_nil, hmailbox]
        _ = (kind (.send value sender)).toList ++ (front ++ back).filterMap kind :=
            Mailbox.filterMap_of_front kind hm
        _ = (.send value sender :: (front ++ back)).filterMap kind := by
            cases hm : kind (.send value sender) <;> simp [hm]

/-- What a step acknowledges. -/
theorem Effect.acked_eq (h : Effect s e s') (halive : s'.place.Alive) :
    s.place.Alive ∧ e.replies.filterMap acked = senders e.taken.toList := by
  cases h with
  | arrived m => exact ⟨halive, rfl⟩
  | buffered vs value pid rest hplace _ | answered value vs pid rest hplace _
  | waits pid rest hplace _ | closed buffer pid rest hplace _
  | passed pid value sender front back hplace _ _ =>
      rw [hplace]
      exact ⟨trivial, rfl⟩
  | badarg | caseClause => exact halive.elim

/-- What a step answers. -/
theorem Effect.fits {answers : List (π × α)} {pids : List π} {values : List α}
    (h : Effect s e s') (hfits : s.place.Fits answers pids values) :
    s'.place.Fits (answers ++ e.replies.filterMap answer) (pids ++ receivers e.taken.toList)
      (values ++ sentValues e.taken.toList) := by
  cases h with
  | arrived m =>
      show s.place.Fits (answers ++ []) (pids ++ []) (values ++ [])
      rw [List.append_nil, List.append_nil, List.append_nil]
      exact hfits
  | buffered vs value pid rest hplace _ =>
      rw [hplace] at hfits
      obtain ⟨rfl, rfl⟩ := hfits
      show (answers ++ []).map Prod.fst = answers.map Prod.fst ++ [] ∧
        (answers ++ []).map Prod.snd ++ (vs ++ [value]) = answers.map Prod.snd ++ vs ++ [value]
      simp
  | answered value vs pid rest hplace _ =>
      rw [hplace] at hfits
      obtain ⟨rfl, rfl⟩ := hfits
      show (answers ++ [(pid, value)]).map Prod.fst = answers.map Prod.fst ++ [pid] ∧
        (answers ++ [(pid, value)]).map Prod.snd ++ vs =
          answers.map Prod.snd ++ value :: vs ++ []
      simp
  | waits pid rest hplace _ =>
      rw [hplace] at hfits
      obtain ⟨rfl, rfl⟩ := hfits
      show (answers ++ []).map Prod.fst ++ [pid] = answers.map Prod.fst ++ [pid] ∧
        (answers ++ []).map Prod.snd = answers.map Prod.snd ++ [] ++ []
      simp
  | passed pid value sender front back hplace _ _ =>
      rw [hplace] at hfits
      obtain ⟨rfl, rfl⟩ := hfits
      show (answers ++ [(pid, value)]).map Prod.fst = answers.map Prod.fst ++ [pid] ++ [] ∧
        (answers ++ [(pid, value)]).map Prod.snd ++ [] = answers.map Prod.snd ++ [value]
      simp
  | closed buffer pid rest hplace _ =>
      rw [hplace] at hfits
      show (answers ++ []).map Prod.fst = pids ++ [] ∧
        ∃ lost, (answers ++ []).map Prod.snd ++ lost = values ++ []
      rw [List.append_nil, List.append_nil, List.append_nil]
      cases buffer with
      | values vs => exact ⟨hfits.1, vs, hfits.2⟩
      | closed => exact hfits
  | badarg | caseClause => trivial

/-- The senders of two pieces. -/
@[simp] theorem senders_append (ms ms' : List (Msg π α)) :
    senders (ms ++ ms') = senders ms ++ senders ms' := by
  rw [senders, List.filterMap_append, List.map_append]
  rfl

/-- The values of two pieces. -/
@[simp] theorem sentValues_append (ms ms' : List (Msg π α)) :
    sentValues (ms ++ ms') = sentValues ms ++ sentValues ms' := by
  rw [sentValues, List.filterMap_append, List.map_append]
  rfl

/-- The receivers of two pieces. -/
@[simp] theorem receivers_append (ms ms' : List (Msg π α)) :
    receivers (ms ++ ms') = receivers ms ++ receivers ms' := by
  rw [receivers, List.filterMap_append]
  rfl

/-- **The step lemma** of the books. -/
theorem Books.effect (hb : Books h s) (heffect : Effect s e s') : Books (h ++ [e]) s' := by
  constructor
  · have hone := heffect.mailbox_eq Msg.send? (Or.inl fun _ => id)
    rw [List.filterMap_append, List.filterMap_append] at hone
    rw [arrivals_snoc, taken_snoc, List.filterMap_append, List.filterMap_append, hb.sends,
      List.append_assoc, hone, List.append_assoc]
  · have hone : receivers (s.mailbox ++ e.arrival.toList) =
        receivers (e.taken.toList ++ s'.mailbox) :=
      heffect.mailbox_eq Msg.recv? (Or.inr fun _ _ => rfl)
    rw [receivers_append, receivers_append] at hone
    rw [arrivals_snoc, taken_snoc, receivers_append, receivers_append, hb.recvs,
      List.append_assoc, hone, List.append_assoc]
  · intro halive
    obtain ⟨halive, hone⟩ := heffect.acked_eq halive
    rw [replies_snoc, taken_snoc, List.filterMap_append, senders_append, hb.acks halive, hone]
  · rw [replies_snoc, taken_snoc, List.filterMap_append, receivers_append, sentValues_append]
    exact heffect.fits hb.answers

/-- At the start nothing has arrived. -/
theorem Books.start : Books [] (Erlang.start : Channel π α) := by
  refine ⟨rfl, rfl, fun _ => rfl, ?_⟩
  show ([] : List (π × α)).map Prod.fst = [] ∧ ([] : List (π × α)).map Prod.snd ++ [] = []
  exact ⟨rfl, rfl⟩

/-- The books are kept in every run. -/
theorem run_books {ok : Channel π α → Action π α → Prop} (hr : Run step ok Erlang.start h s) :
    Books h s :=
  Run.invariant Books .start (fun _ _ _ _ _ hb _ hs => hb.effect (effect_step hs)) hr

/-! ## Without a close -/

/-- No `close` is in the mailbox, or has been taken. -/
structure IsOpen (s : Channel π α) : Prop where
  alive : s.place.Alive
  buffer : s.place ≠ .loop .closed
  mailbox : ∀ m ∈ s.mailbox, m.isClose = false

/-- Until a `close` arrives the channel stays open. -/
theorem IsOpen.effect (ho : IsOpen s) (heffect : Effect s e s')
    (harrival : ∀ m ∈ e.arrival, m.isClose = false) : IsOpen s' := by
  obtain ⟨halive, hbuffer, hmailbox⟩ := ho
  cases heffect with
  | arrived m =>
      refine ⟨halive, hbuffer, fun x hx => ?_⟩
      rcases List.mem_append.mp hx with hx | hx
      · exact hmailbox x hx
      · rw [List.mem_singleton.mp hx]
        exact harrival m rfl
  | buffered vs value pid rest _ hrest | answered value vs pid rest _ hrest
  | waits pid rest _ hrest =>
      rw [hrest] at hmailbox
      exact ⟨trivial, nofun, fun x hx => hmailbox x (List.mem_cons_of_mem _ hx)⟩
  | passed pid value sender front back _ hrest _ =>
      refine ⟨trivial, nofun, fun x hx => hmailbox x ?_⟩
      rw [hrest]
      exact List.mem_append.mpr ((List.mem_append.mp hx).imp_right (List.mem_cons_of_mem _))
  | closed buffer pid rest _ hrest =>
      have hclose := hmailbox (.close pid) (by rw [hrest]; exact List.mem_cons_self)
      cases hclose
  | badarg value pid rest hplace _ => exact absurd hplace hbuffer
  | caseClause pid rest hplace _ => exact absurd hplace hbuffer

/-- So it does in a run in which none arrives. -/
theorem run_isOpen (hr : Run step anyStep start h s)
    (hno : ∀ m ∈ arrivals h, m.isClose = false) : IsOpen s := by
  induction hr with
  | nil => exact ⟨trivial, nofun, List.forall_mem_nil _⟩
  | @snoc h s s' a e _ _ hs ih =>
      rw [arrivals_snoc, List.forall_mem_append] at hno
      exact (ih hno.1).effect (effect_step hs) fun m hm => hno.2 m (Option.mem_toList.mpr hm)

/-- When the process can take nothing, there is no `send` in the mailbox, and no `recv` either
unless the process waits for a `send`. -/
theorem select_of_waits (h : step s .take = none) (halive : s.place.Alive) :
    s.mailbox = [] ∨ ∃ pid, s.place = .inner pid ∧ s.mailbox.filterMap Msg.send? = [] := by
  unfold step at h
  dsimp only at h
  split at h
  · split at h
    · cases h
    · next hselect =>
      left
      refine List.eq_nil_iff_forall_not_mem.mpr fun m hm => ?_
      cases Mailbox.select_eq_none_iff.mp hselect m hm
  · next pid hplace =>
    split at h
    · cases h
    · next hselect =>
      exact Or.inr ⟨pid, hplace,
        List.filterMap_eq_nil_iff.mpr (Mailbox.select_eq_none_iff.mp hselect)⟩
  · next why hplace =>
    rw [hplace] at halive
    exact halive.elim

/-- Every message that the process sends is an acknowledgement or an answer. -/
theorem length_replies (rs : List (π × Reply α)) :
    rs.length = (rs.filterMap acked).length + (rs.filterMap answer).length := by
  induction rs with
  | nil => rfl
  | cons r rs ih =>
      obtain ⟨pid, reply⟩ := r
      cases reply with
      | ok =>
          simp only [List.filterMap_cons, acked, answer, List.length_cons]
          omega
      | value v =>
          simp only [List.filterMap_cons, acked, answer, List.length_cons]
          omega

/-- When the process waits for good, as many have been answered as could be. -/
theorem zip_of_waits (hb : Books h s) (halive : s.place.Alive) (hwaits : step s .take = none) :
    (replies h).filterMap answer = (receivers (arrivals h)).zip (sentValues (arrivals h)) ∧
      (replies h).filterMap acked = senders (arrivals h) := by
  have hzip := hb.answers.eq_zip halive
  have hacks := hb.acks halive
  have hsends := hb.sends
  have hrecvs := hb.recvs
  rcases select_of_waits hwaits halive with hempty | ⟨pid, hplace, hnone⟩
  · rw [hempty, List.filterMap_nil, List.append_nil] at hsends
    rw [hempty, receivers, receivers, receivers, List.filterMap_nil, List.append_nil] at hrecvs
    rw [receivers, sentValues, senders, hsends, hrecvs]
    exact ⟨hzip, hacks⟩
  · -- the requests left in the mailbox are ahead of the values
    rw [hnone, List.append_nil] at hsends
    have hanswers := hb.answers
    rw [hplace] at hanswers
    refine ⟨?_, by rw [senders, hsends]; exact hacks⟩
    rw [sentValues, hsends]
    have hpids : ((replies h).filterMap answer).map Prod.fst ++ pid :: receivers s.mailbox =
        receivers (arrivals h) := by
      rw [hrecvs, ← hanswers.1, List.append_assoc]
      rfl
    exact zip_eq_of_append hpids ((List.append_nil _).trans hanswers.2) (Or.inr rfl)

/-- **The channel process.**  Whenever it can take nothing, and no `close` has arrived: the `k`-th
`recv` in the order of arrival has been answered with the `k`-th value in the order of arrival,
for all `k` for which there are both; every `send` has been acknowledged to its sender; and
nothing else has been sent.  So what is sent depends on the order of the `send`s and that of the
`recv`s only. -/
theorem run_answers (hr : Run step anyStep start h s)
    (hno : ∀ m ∈ arrivals h, m.isClose = false) (hwaits : step s .take = none) :
    (replies h).filterMap answer = (receivers (arrivals h)).zip (sentValues (arrivals h)) ∧
    (replies h).filterMap acked = senders (arrivals h) ∧
    (replies h).length = ((replies h).filterMap acked).length +
      ((replies h).filterMap answer).length ∧
    ∀ h' s', Run step anyStep start h' s' → (∀ m ∈ arrivals h', m.isClose = false) →
      step s' .take = none →
      (arrivals h').filterMap Msg.send? = (arrivals h).filterMap Msg.send? →
      receivers (arrivals h') = receivers (arrivals h) →
      (replies h').filterMap answer = (replies h).filterMap answer ∧
        (replies h').filterMap acked = (replies h).filterMap acked := by
  obtain ⟨hanswers, hacks⟩ := zip_of_waits (run_books hr) (run_isOpen hr hno).alive hwaits
  refine ⟨hanswers, hacks, length_replies _, fun h' s' hr' hno' hwaits' hsends hrecvs => ?_⟩
  obtain ⟨hanswers', hacks'⟩ := zip_of_waits (run_books hr') (run_isOpen hr' hno').alive hwaits'
  rw [hanswers', hacks', hanswers, hacks, sentValues, senders, hsends, hrecvs]
  exact ⟨rfl, rfl⟩

/-- Two consumers ask before anything has been sent: the second request stays in the mailbox while
the process waits for a `send`. -/
def twoRecvs : List (Action ℕ ℕ) :=
  [.arrive (.recv 1), .arrive (.recv 2), .take, .arrive (.send 5 3), .take, .take,
    .arrive (.send 6 4), .arrive (.send 7 3), .take, .take]

/-- Two receivers wait, then three values are sent. -/
theorem run_answers_twoRecvs : ∃ (h : List (Event ℕ ℕ)) (s : Channel ℕ ℕ),
    Run step anyStep start h s ∧ (replies h).filterMap answer = [(1, 5), (2, 6)] ∧
    (replies h).filterMap acked = [3, 4, 3] ∧ s.place = .loop (.values [7]) ∧
    (replies h).filterMap answer = (receivers (arrivals h)).zip (sentValues (arrivals h)) := by
  have hr := run_of_replay (step (π := ℕ) (α := ℕ)) (s := start) twoRecvs rfl
  exact ⟨_, _, hr, rfl, rfl, rfl, (run_answers hr (by decide) rfl).1⟩

end Erlang

end Csp
