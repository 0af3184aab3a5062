/-
# Accounts as processes (`erlang/actor/bank_account.erl`)

Each account is a `gen_server`, which handles one message after the other.  A client that makes a
call waits for the reply, and exits if the account has stopped, or stops before it comes to the
call.  `transfer` is two such calls, to two accounts, with anything in between.

A step is a call, the handling of a message by an account, or what a client does next: it goes on
with the reply, or learns that the account has stopped.
-/
import Mathlib.Data.Int.Notation
import Mathlib.Data.Nat.Notation
import Mathlib.Logic.Function.Basic
import Mathlib.Tactic.SplitIfs

namespace Actor

/-! ## The server -/

/-- What is asked of an account. -/
inductive Request where
  | balance
  | deposit (amount : ℤ)
  | withdraw (amount : ℤ)
  deriving DecidableEq, Repr

/-- What an account answers. -/
inductive Reply where
  /-- `{ok, Balance}` -/
  | ok (balance : ℤ)
  | insufficientFunds
  | unknownRequest
  /-- the `ok` of `gen_server:stop` -/
  | stopped
  deriving DecidableEq, Repr

/-- `init`: the guard of the initial balance. -/
abbrev InitialBalance := { balance : ℤ // 0 ≤ balance }

/-- `handle_call`: the reply and the new balance. -/
def handleCall (request : Request) (balance : ℤ) : Reply × ℤ :=
  match request with
  | .balance => (.ok balance, balance)
  | .deposit amount =>
      if 0 < amount then (.ok (balance + amount), balance + amount)
      else (.unknownRequest, balance)
  | .withdraw amount =>
      if 0 < amount ∧ amount ≤ balance then (.ok (balance - amount), balance - amount)
      else (.insufficientFunds, balance)

/-- An operation: the client, and how many operations it has made before. -/
abbrev Tag (κ : Type*) := κ × ℕ

/-- What a client sends to an account; the tag is where the reply goes. -/
inductive Message (κ : Type*) where
  | call (request : Request) (tag : Tag κ)
  | stop (tag : Tag κ)
  deriving DecidableEq, Repr

/-- The request that the message belongs to. -/
def Message.tag {κ : Type*} : Message κ → Tag κ
  | call _ tag => tag
  | stop tag => tag

/-- The account process. -/
structure Account (κ : Type*) where
  balance : ℤ
  alive : Bool
  mailbox : List (Message κ)

/-- The account handles a message: the reply, and what becomes of the account. -/
def Account.handle {κ : Type*} (a : Account κ) (m : Message κ) (rest : List (Message κ)) :
    Reply × Account κ :=
  match m with
  | .call request _ =>
      ((handleCall request a.balance).1, ⟨(handleCall request a.balance).2, a.alive, rest⟩)
  | .stop _ => (.stopped, ⟨a.balance, false, rest⟩)

/-! ## The clients -/

/-- The functions of the interface. -/
inductive Op (π : Type*) where
  | balance (pid : π)
  | deposit (pid : π) (amount : ℤ)
  | withdraw (pid : π) (amount : ℤ)
  | transfer (fromPid toPid : π) (amount : ℤ)
  | stop (pid : π)
  deriving DecidableEq, Repr

/-- How an operation ends. -/
inductive Result where
  /-- it returns the reply; for a transfer, this is an error -/
  | replied (reply : Reply)
  /-- `{ok, NewFromBal, NewToBal}` -/
  | transferred (newFromBal newToBal : ℤ)
  | exited
  deriving DecidableEq, Repr

namespace Op

variable {π κ : Type*}

/-- Whom the operation calls; a transfer that has `debited` the one account calls the other. -/
def pid : Op π → Option ℤ → π
  | balance pid, _ => pid
  | deposit pid _, _ => pid
  | withdraw pid _, _ => pid
  | transfer fromPid _ _, none => fromPid
  | transfer _ toPid _, some _ => toPid
  | stop pid, _ => pid

/-- What it sends. -/
def message : Op π → Option ℤ → Tag κ → Message κ
  | balance _, _, tag => .call .balance tag
  | deposit _ amount, _, tag => .call (.deposit amount) tag
  | withdraw _ amount, _, tag => .call (.withdraw amount) tag
  | transfer _ _ amount, none, tag => .call (.withdraw amount) tag
  | transfer _ _ amount, some _, tag => .call (.deposit amount) tag
  | stop _, _, tag => .stop tag

/-- What it does with the reply: a transfer goes on to the deposit, with the new balance of the
account debited, or it ends. -/
def next : Op π → Option ℤ → Reply → ℤ ⊕ Result
  | transfer _ _ _, none, .ok newFromBal => .inl newFromBal
  | transfer _ _ _, some newFromBal, .ok newToBal => .inr (.transferred newFromBal newToBal)
  -- `{ok, NewToBal} = ...` does not match
  | transfer _ _ _, some _, _ => .inr .exited
  | _, _, reply => .inr (.replied reply)

@[simp] theorem tag_message (op : Op π) (debited : Option ℤ) (tag : Tag κ) :
    (op.message debited tag).tag = tag := by
  cases op <;> cases debited <;> rfl

end Op

/-- What a client is doing. -/
inductive Phase (π : Type*) where
  | idle
  /-- waiting for a reply -/
  | waiting (op : Op π) (debited : Option ℤ)
  /-- the reply has come -/
  | replied (op : Op π) (debited : Option ℤ) (reply : Reply)
  | exited
  deriving Repr

/-- A client, and where it is in its operation. -/
structure Client (π : Type*) where
  /-- the operations that have ended -/
  number : ℕ
  phase : Phase π

/-- The accounts `π` and the clients `κ`. -/
structure Bank (π κ : Type*) where
  account : π → Account κ
  client : κ → Client π

/-- Who goes on. -/
inductive Action (π κ : Type*) where
  /-- an idle client calls a function of the interface -/
  | call (c : κ) (op : Op π)
  /-- an account handles the next message -/
  | handle (pid : π)
  /-- a client goes on with the reply -/
  | resume (c : κ)
  /-- a client learns that the account it has called is no more -/
  | down (c : κ)

/-- What a step shows. -/
inductive Event (π κ : Type*) where
  | called (c : κ)
  /-- an account has handled a message, which has changed its balance by `change` -/
  | handled (pid : π) (tag : Tag κ) (change : ℤ)
  | ended (tag : Tag κ) (op : Op π) (result : Result)
  deriving Repr

namespace Bank

variable {π κ : Type*} [DecidableEq π] [DecidableEq κ]

/-- Accounts with their initial balances, and clients that have not done anything yet. -/
def start (initial : π → InitialBalance) : Bank π κ where
  account pid := ⟨initial pid, true, []⟩
  client _ := ⟨0, .idle⟩

/-- The account `pid` goes on. -/
def setAccount (s : Bank π κ) (pid : π) (a : Account κ) : Bank π κ :=
  { s with account := Function.update s.account pid a }

/-- The client `c` goes on. -/
def setPhase (s : Bank π κ) (c : κ) (phase : Phase π) : Bank π κ :=
  { s with client := Function.update s.client c ⟨(s.client c).number, phase⟩ }

/-- The client `c` sends a message and waits for the reply. -/
def send (s : Bank π κ) (c : κ) (op : Op π) (debited : Option ℤ) : Bank π κ :=
  let pid := op.pid debited
  let a := s.account pid
  (s.setAccount pid
    { a with mailbox := a.mailbox ++ [op.message debited (c, (s.client c).number)] }).setPhase c
      (.waiting op debited)

/-- The reply reaches the client, if it still waits for it. -/
def deliver (s : Bank π κ) (tag : Tag κ) (reply : Reply) : Bank π κ :=
  match (s.client tag.1).phase with
  | .waiting op debited =>
      if (s.client tag.1).number = tag.2 then s.setPhase tag.1 (.replied op debited reply) else s
  | _ => s

/-- The operation of the client `c` ends. -/
def finish (s : Bank π κ) (c : κ) : Result → Bank π κ
  | .exited => s.setPhase c .exited
  | _ => { s with client := Function.update s.client c ⟨(s.client c).number + 1, .idle⟩ }

/-- A step of an account or of a client.  The links that `start_link` makes and the timeouts of the
calls are left out. -/
def step (s : Bank π κ) : Action π κ → Option (Event π κ × Bank π κ)
  | .call c op =>
      match (s.client c).phase with
      | .idle => some (.called c, s.send c op none)
      | _ => none
  | .handle pid =>
      let a := s.account pid
      match a.alive, a.mailbox with
      | true, m :: rest =>
          let r := a.handle m rest
          some (.handled pid m.tag (r.2.balance - a.balance),
            (s.setAccount pid r.2).deliver m.tag r.1)
      | _, _ => none
  | .resume c =>
      match (s.client c).phase with
      | .replied op debited reply =>
          match op.next debited reply with
          | .inl newFromBal => some (.called c, s.send c op (some newFromBal))
          | .inr result => some (.ended (c, (s.client c).number) op result, s.finish c result)
      | _ => none
  | .down c =>
      match (s.client c).phase with
      | .waiting op debited =>
          if (s.account (op.pid debited)).alive = false then
            some (.ended (c, (s.client c).number) op .exited, s.finish c .exited)
          else none
      | _ => none

/-! ## What a step does -/

/-- What the steps do, one by one. -/
inductive Effect (s : Bank π κ) : Action π κ → Event π κ → Bank π κ → Prop
  | called (c : κ) (op : Op π) : (s.client c).phase = .idle →
      Effect s (.call c op) (.called c) (s.send c op none)
  | handled (pid : π) (m : Message κ) (rest : List (Message κ)) :
      (s.account pid).alive = true → (s.account pid).mailbox = m :: rest →
      Effect s (.handle pid)
        (.handled pid m.tag
          (((s.account pid).handle m rest).2.balance - (s.account pid).balance))
        ((s.setAccount pid ((s.account pid).handle m rest).2).deliver m.tag
          ((s.account pid).handle m rest).1)
  | goesOn (c : κ) (fromPid toPid : π) (amount newFromBal : ℤ) :
      (s.client c).phase = .replied (.transfer fromPid toPid amount) none (.ok newFromBal) →
      Effect s (.resume c) (.called c) (s.send c (.transfer fromPid toPid amount) (some newFromBal))
  | ended (c : κ) (op : Op π) (debited : Option ℤ) (reply : Reply) (result : Result) :
      (s.client c).phase = .replied op debited reply → op.next debited reply = .inr result →
      Effect s (.resume c) (.ended (c, (s.client c).number) op result) (s.finish c result)
  | down (c : κ) (op : Op π) (debited : Option ℤ) : (s.client c).phase = .waiting op debited →
      (s.account (op.pid debited)).alive = false →
      Effect s (.down c) (.ended (c, (s.client c).number) op .exited) (s.finish c .exited)

omit [DecidableEq π] in
theorem next_eq_inl {op : Op π} {debited : Option ℤ} {reply : Reply} {newFromBal : ℤ}
    (h : op.next debited reply = .inl newFromBal) :
    ∃ fromPid toPid amount, op = .transfer fromPid toPid amount ∧ debited = none ∧
      reply = .ok newFromBal := by
  cases op with
  | transfer fromPid toPid amount =>
      cases debited <;> cases reply <;> cases h
      exact ⟨fromPid, toPid, amount, rfl, rfl, rfl⟩
  | balance | deposit | withdraw | stop => cases h

theorem effect_step {s s' : Bank π κ} {a : Action π κ} {e : Event π κ}
    (h : s.step a = some (e, s')) : Effect s a e s' := by
  unfold step at h
  cases a with
  | call c op =>
      dsimp only at h
      split at h
      · next hidle =>
        cases h
        exact .called c op hidle
      · cases h
  | handle pid =>
      dsimp only at h
      split at h
      · next m rest halive hmailbox =>
        cases h
        exact .handled pid m rest halive hmailbox
      · cases h
  | resume c =>
      dsimp only at h
      split at h
      · next op debited reply hphase =>
        split at h
        · next newFromBal hnext =>
          cases h
          obtain ⟨fromPid, toPid, amount, rfl, rfl, rfl⟩ := next_eq_inl hnext
          exact .goesOn c fromPid toPid amount newFromBal hphase
        · next result hnext =>
          cases h
          exact .ended c op debited reply result hphase hnext
      · cases h
  | down c =>
      dsimp only at h
      split at h
      · next op debited hphase =>
        split_ifs at h with hdead
        cases h
        exact .down c op debited hphase hdead
      · cases h

end Bank

end Actor
