/-
# Transfers between account processes (`erlang/actor/bank_account.erl`)

Every operation has a number of its own, so that what it has changed can be read off the history
(`changes`).  A transfer that returns `{ok, _, _}` has debited the one account and credited the
other, and one that returns an error has changed nothing (`Books`).  But the call that is to
credit the second account can fail after the first one has been debited: then the caller
exits, and the amount is gone (`run_transfer`).
-/
import Cocurrency.Actor.BankAccount
import Cocurrency.Lib.Run
import Mathlib.Algebra.BigOperators.Group.List.Basic
import Mathlib.Algebra.Ring.Int.Defs
import Mathlib.Data.Fintype.Basic
import Mathlib.Data.List.Nodup

namespace Actor

/-! ## What an operation has changed -/

section Changes

variable {π κ : Type*} [DecidableEq κ]

/-- The change of a balance by the operation `tag`, if the event is one. -/
def Event.change (tag : Tag κ) : Event π κ → Option (π × ℤ)
  | .handled pid tag' change => if tag' = tag ∧ change ≠ 0 then some (pid, change) else none
  | _ => none

/-- The changes of balances by the operation `tag`. -/
def changes (h : List (Event π κ)) (tag : Tag κ) : List (π × ℤ) := h.filterMap (Event.change tag)

/-- What a request has changed, one event more. -/
@[simp] theorem changes_snoc (h : List (Event π κ)) (e : Event π κ) (tag : Tag κ) :
    changes (h ++ [e]) tag = changes h tag ++ (e.change tag).toList := by
  rw [changes, List.filterMap_append]
  cases he : e.change tag <;> simp [changes, he]

/-- An event that is not the handling of the request. -/
theorem changes_of_none {h : List (Event π κ)} {e : Event π κ} {tag : Tag κ}
    (he : e.change tag = none) : changes (h ++ [e]) tag = changes h tag := by
  rw [changes_snoc, he]
  exact List.append_nil _

/-- An event about another request. -/
theorem change_of_ne {pid : π} {tag tag' : Tag κ} {d : ℤ} (hne : tag' ≠ tag) :
    (Event.handled pid tag' d).change tag = none :=
  if_neg fun h => hne h.1

/-- The amounts by which the balance of `pid` is changed. -/
def netChange [DecidableEq π] (changes : List (π × ℤ)) (pid : π) : ℤ :=
  ((changes.filter fun change => change.1 = pid).map Prod.snd).sum

end Changes

/-- What the operation of a client can have changed so far.  Of operations other than a transfer
nothing is said. -/
def Phase.Fits {π : Type*} (changes : List (π × ℤ)) : Phase π → Prop
  | .idle => changes = []
  | .waiting _ none => changes = []
  | .waiting (.transfer fromPid _ amount) (some _) => 0 < amount ∧ changes = [(fromPid, -amount)]
  | .waiting _ (some _) => False
  | .replied (.transfer fromPid _ amount) none (.ok _) =>
      0 < amount ∧ changes = [(fromPid, -amount)]
  | .replied (.transfer _ _ _) none _ => changes = []
  | .replied (.transfer fromPid toPid amount) (some _) (.ok _) =>
      0 < amount ∧ changes = [(fromPid, -amount), (toPid, amount)]
  | .replied _ (some _) _ => False
  | .replied _ none _ => True
  | .exited => True

/-- What an operation that has ended has changed: a transfer that returns, all or nothing. -/
def Op.Settled {π : Type*} (op : Op π) (result : Result) (changes : List (π × ℤ)) : Prop :=
  match op, result with
  | .transfer fromPid toPid amount, .transferred _ _ =>
      changes = [(fromPid, -amount), (toPid, amount)]
  | .transfer _ _ _, .replied _ => changes = []
  | _, _ => True

/-- The reply that ends an operation tells what it has changed. -/
theorem settled_of_next {π : Type*} {op : Op π} {debited : Option ℤ} {reply : Reply}
    {result : Result} {changes : List (π × ℤ)}
    (hfits : (Phase.replied op debited reply).Fits changes)
    (hnext : op.next debited reply = .inr result) : op.Settled result changes := by
  cases op with
  | transfer fromPid toPid amount =>
      cases debited with
      | none =>
          cases reply with
          | ok newFromBal => cases hnext
          | insufficientFunds | unknownRequest | stopped =>
              cases hnext
              exact hfits
      | some newFromBal =>
          cases reply with
          | ok newToBal =>
              cases hnext
              exact hfits.2
          | insufficientFunds | unknownRequest | stopped => exact hfits.elim
  | balance | deposit | withdraw | stop => trivial

/-- A transfer that goes on, or ends well, does not exit. -/
theorem ne_exited_of_next {π : Type*} {op : Op π} {debited : Option ℤ} {reply : Reply}
    {changes : List (π × ℤ)} (hfits : (Phase.replied op debited reply).Fits changes) :
    op.next debited reply ≠ .inr .exited := by
  intro hnext
  cases op with
  | transfer fromPid toPid amount =>
      cases debited with
      | none => cases reply <;> cases hnext
      | some newFromBal =>
          cases reply with
          | ok newToBal => cases hnext
          | insufficientFunds | unknownRequest | stopped => exact hfits
  | balance | deposit | withdraw | stop => cases hnext

/-- `handle_call` never overdraws an account. -/
theorem handleCall_nonneg (request : Request) {balance : ℤ} (h : 0 ≤ balance) :
    0 ≤ (handleCall request balance).2 := by
  cases request with
  | balance => exact h
  | deposit amount =>
      rw [handleCall]
      split_ifs with hpos
      · exact Int.add_nonneg h (Int.le_of_lt hpos)
      · exact h
  | withdraw amount =>
      rw [handleCall]
      split_ifs with hguard
      · exact Int.sub_nonneg_of_le hguard.2
      · exact h

/-- A withdrawal is covered and made, or is refused. -/
theorem handleCall_withdraw (amount balance : ℤ) :
    (0 < amount ∧
        handleCall (.withdraw amount) balance = (.ok (balance - amount), balance - amount)) ∨
      handleCall (.withdraw amount) balance = (.insufficientFunds, balance) := by
  rw [handleCall]
  split_ifs with hguard
  · exact Or.inl ⟨hguard.1, rfl⟩
  · exact Or.inr rfl

/-- A deposit is made. -/
theorem handleCall_deposit {amount : ℤ} (hpos : 0 < amount) (balance : ℤ) :
    handleCall (.deposit amount) balance = (.ok (balance + amount), balance + amount) :=
  if_pos hpos

section Changes

variable {π κ : Type*} [DecidableEq κ] (pid : π) (tag : Tag κ)

/-- A change by `d`. -/
theorem change_self {d : ℤ} (hd : d ≠ 0) :
    ((Event.handled pid tag d).change tag).toList = [(pid, d)] := by
  rw [Event.change, if_pos ⟨rfl, hd⟩]
  rfl

theorem change_zero : ((Event.handled pid tag 0).change tag).toList = [] := by
  rw [Event.change, if_neg fun h => h.2 rfl]
  rfl

/-- What the handling of a message changes is what its operation is to change. -/
theorem fits_handle {op : Op π} {debited : Option ℤ} {changes : List (π × ℤ)}
    (hfits : (Phase.waiting op debited).Fits changes) (a : Account κ) (rest : List (Message κ)) :
    (Phase.replied op debited (a.handle (op.message debited tag) rest).1).Fits
      (changes ++ ((Event.handled (op.pid debited) tag
        ((a.handle (op.message debited tag) rest).2.balance - a.balance)).change tag).toList) := by
  cases op with
  | transfer fromPid toPid amount =>
      cases debited with
      | none =>
          have hnil : changes = [] := hfits
          simp only [Op.message, Op.pid, Account.handle]
          rcases handleCall_withdraw amount a.balance with ⟨hpos, hcall⟩ | hcall
          · have hd : a.balance - amount - a.balance = -amount := by omega
            rw [hcall, hd, change_self fromPid tag (by omega), hnil]
            exact ⟨hpos, rfl⟩
          · rw [hcall, Int.sub_self, change_zero, hnil]
            exact rfl
      | some newFromBal =>
          obtain ⟨hpos, hone⟩ := hfits
          have hd : a.balance + amount - a.balance = amount := by omega
          simp only [Op.message, Op.pid, Account.handle]
          rw [handleCall_deposit hpos, hd, change_self toPid tag (by omega), hone]
          exact ⟨hpos, rfl⟩
  | balance pid | deposit pid amount | withdraw pid amount | stop pid =>
      cases debited with
      | none => trivial
      | some newFromBal => exact hfits.elim

end Changes

section Handle

variable {κ : Type*} (a : Account κ) (m : Message κ) (rest : List (Message κ))

/-- A message that is handled leaves the mailbox. -/
theorem mailbox_handle : (a.handle m rest).2.mailbox = rest := by
  cases m <;> rfl

/-- An account that has handled a message is not overdrawn. -/
theorem handle_nonneg (h : 0 ≤ a.balance) : 0 ≤ (a.handle m rest).2.balance := by
  cases m with
  | call request tag => exact handleCall_nonneg request h
  | stop tag => exact h

end Handle

namespace Bank

section Fields

variable {π κ : Type*} [DecidableEq κ] (s : Bank π κ) (c : κ) (phase : Phase π)

/-- The client that goes on. -/
@[simp] theorem client_setPhase_self :
    (s.setPhase c phase).client c = ⟨(s.client c).number, phase⟩ := Function.update_self _ _ _

theorem client_setPhase_of_ne {d : κ} (hd : d ≠ c) :
    (s.setPhase c phase).client d = s.client d := Function.update_of_ne hd _ _

/-- The client has its result. -/
theorem client_finish_self {result : Result} (hr : result ≠ .exited) :
    (s.finish c result).client c = ⟨(s.client c).number + 1, .idle⟩ := by
  cases result with
  | exited => exact absurd rfl hr
  | replied | transferred => exact Function.update_self _ _ _

theorem client_finish_of_ne (result : Result) {d : κ} (hd : d ≠ c) :
    (s.finish c result).client d = s.client d := by
  cases result <;> exact Function.update_of_ne hd _ _

/-- A result is nothing to the accounts. -/
@[simp] theorem account_finish (result : Result) : (s.finish c result).account = s.account := by
  cases result <;> rfl

/-- A reply reaches the client that waits for it. -/
theorem deliver_of_waiting {tag : Tag κ} {op : Op π} {debited : Option ℤ} (reply : Reply)
    (h : s.client tag.1 = ⟨tag.2, .waiting op debited⟩) :
    s.deliver tag reply = s.setPhase tag.1 (.replied op debited reply) := by
  simp [deliver, h]

end Fields

variable {π κ : Type*}

/-- The message `m`, in the mailbox of `pid`, is what its sender waits for a reply to. -/
def Awaits (s : Bank π κ) (pid : π) (m : Message κ) : Prop :=
  ∃ op debited, s.client m.tag.1 = ⟨m.tag.2, .waiting op debited⟩ ∧ op.pid debited = pid ∧
    m = op.message debited m.tag

/-- Only the client of the message matters. -/
theorem Awaits.congr {s s' : Bank π κ} {pid : π} {m : Message κ} (h : s.Awaits pid m)
    (hc : s'.client m.tag.1 = s.client m.tag.1) : s'.Awaits pid m := by
  obtain ⟨op, debited, hclient, hpid, hm⟩ := h
  exact ⟨op, debited, hc.trans hclient, hpid, hm⟩

/-- The operation `tag` has ended. -/
def Past (s : Bank π κ) (tag : Tag κ) : Prop :=
  tag.2 < (s.client tag.1).number ∨ s.client tag.1 = ⟨tag.2, .exited⟩

variable [DecidableEq κ]

/-- The books of a run. -/
structure Books (h : List (Event π κ)) (s : Bank π κ) : Prop where
  nonneg : ∀ pid, 0 ≤ (s.account pid).balance
  awaits : ∀ pid, (s.account pid).alive = true → ∀ m ∈ (s.account pid).mailbox, s.Awaits pid m
  nodup : ∀ pid, (s.account pid).alive = true →
    ((s.account pid).mailbox.map Message.tag).Nodup
  fits : ∀ c, (s.client c).phase.Fits (changes h (c, (s.client c).number))
  fresh : ∀ c n, (s.client c).number < n → changes h (c, n) = []
  ended : ∀ tag op result, .ended tag op result ∈ h →
    s.Past tag ∧ op.Settled result (changes h tag)

variable {h : List (Event π κ)} {s s' : Bank π κ} {a : Action π κ} {e : Event π κ}

/-- At the start nothing has been asked. -/
theorem Books.start (initial : π → InitialBalance) : Books [] (Bank.start initial : Bank π κ) :=
  ⟨fun pid => (initial pid).2, fun _ _ _ hm => absurd hm List.not_mem_nil,
    fun _ _ => List.nodup_nil, fun _ => rfl, fun _ _ _ => rfl,
    fun _ _ _ hm => absurd hm List.not_mem_nil⟩

/-- What has ended stays so when one client moves that has not exited. -/
theorem Past.of_update {tag : Tag κ} {c : κ} (hpast : s.Past tag)
    (hother : ∀ d, d ≠ c → s'.client d = s.client d)
    (hnumber : (s.client c).number ≤ (s'.client c).number)
    (hexited : (s.client c).phase ≠ .exited) : s'.Past tag := by
  by_cases hd : tag.1 = c
  · rw [Past, hd] at hpast
    rcases hpast with hlt | hclient
    · refine Or.inl ?_
      rw [hd]
      omega
    · exact absurd (by rw [hclient]) hexited
  · rw [Past, hother tag.1 hd]
    exact hpast

/-- One client moves, and the event is one of its present operation. -/
theorem Books.of_update (hb : Books h s) {c : κ}
    (hother : ∀ d, d ≠ c → s'.client d = s.client d)
    (hnumber : (s.client c).number ≤ (s'.client c).number)
    (hexited : (s.client c).phase ≠ .exited)
    (hchange : ∀ tag, tag ≠ (c, (s.client c).number) → e.change tag = none)
    (hfits : (s'.client c).phase.Fits (changes (h ++ [e]) (c, (s'.client c).number)))
    (hended : ∀ tag op result, e = .ended tag op result →
      s'.Past tag ∧ op.Settled result (changes h tag))
    (hnonneg : ∀ pid, 0 ≤ (s'.account pid).balance)
    (hawaits : ∀ pid, (s'.account pid).alive = true →
      ∀ m ∈ (s'.account pid).mailbox, s'.Awaits pid m)
    (hnodup : ∀ pid, (s'.account pid).alive = true →
      ((s'.account pid).mailbox.map Message.tag).Nodup) : Books (h ++ [e]) s' := by
  refine ⟨hnonneg, hawaits, hnodup, fun d => ?_, fun d n hlt => ?_, fun tag op result hmem => ?_⟩
  · by_cases hd : d = c
    · rw [hd]
      exact hfits
    · rw [hother d hd, changes_of_none (hchange _ fun heq => hd (congrArg Prod.fst heq))]
      exact hb.fits d
  · by_cases hd : d = c
    · rw [hd] at hlt ⊢
      have hlt' : (s.client c).number < n := by omega
      have hne : (c, n) ≠ (c, (s.client c).number) := fun heq =>
        Nat.ne_of_gt hlt' (congrArg Prod.snd heq)
      rw [changes_of_none (hchange _ hne)]
      exact hb.fresh c n hlt'
    · rw [hother d hd] at hlt
      rw [changes_of_none (hchange _ fun heq => hd (congrArg Prod.fst heq))]
      exact hb.fresh d n hlt
  · rcases List.mem_append.mp hmem with hmem | hmem
    · obtain ⟨hpast, hsettled⟩ := hb.ended tag op result hmem
      have hne : tag ≠ (c, (s.client c).number) := by
        rintro rfl
        rcases hpast with hlt | hclient
        · exact Nat.lt_irrefl _ hlt
        · exact hexited (by rw [hclient])
      rw [changes_of_none (hchange tag hne)]
      exact ⟨hpast.of_update hother hnumber hexited, hsettled⟩
    · have heq := (List.mem_singleton.mp hmem).symm
      rw [changes_of_none (by rw [heq]; rfl)]
      exact hended tag op result heq

/-- An operation returns. -/
theorem Books.finish (hb : Books h s) {c : κ} {op : Op π} {debited : Option ℤ} {reply : Reply}
    {result : Result} (hphase : (s.client c).phase = .replied op debited reply)
    (hnext : op.next debited reply = .inr result) :
    Books (h ++ [.ended (c, (s.client c).number) op result]) (s.finish c result) := by
  have hfits := hb.fits c
  rw [hphase] at hfits
  have hresult : result ≠ .exited := by
    rintro rfl
    exact ne_exited_of_next hfits hnext
  have hself := client_finish_self s c hresult
  have hother : ∀ d, d ≠ c → (s.finish c result).client d = s.client d := fun d hd =>
    client_finish_of_ne s c result hd
  refine hb.of_update hother (by rw [hself]; exact Nat.le_succ _) (by rw [hphase]; exact nofun)
    (fun _ _ => rfl) ?_ (fun tag op' result' heq => ?_) ?_ ?_ ?_
  · rw [changes_of_none rfl, hself]
    exact hb.fresh c _ (Nat.lt_succ_self _)
  · cases heq
    refine ⟨Or.inl ?_, settled_of_next hfits hnext⟩
    rw [hself]
    exact Nat.lt_succ_self _
  · rw [account_finish]
    exact hb.nonneg
  · rw [account_finish]
    intro pid halive m hm
    have hwas := hb.awaits pid halive m hm
    refine hwas.congr (hother _ ?_)
    rintro rfl
    obtain ⟨op', debited', hclient, -⟩ := hwas
    rw [hclient] at hphase
    cases hphase
  · rw [account_finish]
    exact hb.nodup

/-- A client exits, because the account it waits for is no more. -/
theorem Books.down (hb : Books h s) {c : κ} {op : Op π} {debited : Option ℤ}
    (hphase : (s.client c).phase = .waiting op debited)
    (hdead : (s.account (op.pid debited)).alive = false) :
    Books (h ++ [.ended (c, (s.client c).number) op .exited]) (s.finish c .exited) := by
  have hself : (s.finish c .exited).client c = ⟨(s.client c).number, .exited⟩ :=
    client_setPhase_self s c .exited
  have hother : ∀ d, d ≠ c → (s.finish c .exited).client d = s.client d := fun d hd =>
    client_finish_of_ne s c .exited hd
  refine hb.of_update hother (by rw [hself]) (by rw [hphase]; exact nofun) (fun _ _ => rfl)
    (by rw [hself]; trivial) (fun tag op' result' heq => ?_) hb.nonneg ?_ hb.nodup
  · cases heq
    refine ⟨Or.inr hself, ?_⟩
    cases op <;> trivial
  · intro pid halive m hm
    have hwas := hb.awaits pid halive m hm
    refine hwas.congr (hother _ ?_)
    rintro rfl
    obtain ⟨op', debited', hclient, hpid, -⟩ := hwas
    rw [hclient, Phase.waiting.injEq] at hphase
    rw [← hphase.1, ← hphase.2, hpid] at hdead
    exact absurd (hdead.symm.trans halive) Bool.false_ne_true

variable [DecidableEq π]

/-- A client that does not wait makes a call. -/
theorem Books.send (hb : Books h s) {c : κ} {op : Op π} {debited : Option ℤ}
    (hwaits : ∀ op debited, (s.client c).phase ≠ .waiting op debited)
    (hexited : (s.client c).phase ≠ .exited)
    (hfits : ∀ changes, (s.client c).phase.Fits changes →
      (Phase.waiting op debited).Fits changes) :
    Books (h ++ [.called c]) (s.send c op debited) := by
  have hself : (s.send c op debited).client c = ⟨(s.client c).number, .waiting op debited⟩ :=
    Function.update_self _ _ _
  have hother : ∀ d, d ≠ c → (s.send c op debited).client d = s.client d := fun d hd =>
    Function.update_of_ne hd _ _
  have hcalled : (s.send c op debited).account (op.pid debited) =
      { s.account (op.pid debited) with
        mailbox := (s.account (op.pid debited)).mailbox ++
          [op.message debited (c, (s.client c).number)] } := Function.update_self _ _ _
  have haccount : ∀ pid, pid ≠ op.pid debited →
      (s.send c op debited).account pid = s.account pid := fun pid hpid =>
    Function.update_of_ne hpid _ _
  -- no message in a mailbox is from `c`
  have hfrom : ∀ pid, (s.account pid).alive = true → ∀ m ∈ (s.account pid).mailbox,
      m.tag.1 ≠ c := by
    rintro pid halive m hm rfl
    obtain ⟨op', debited', hclient, -⟩ := hb.awaits pid halive m hm
    exact hwaits op' debited' (by rw [hclient])
  refine hb.of_update hother (by rw [hself]) hexited (fun _ _ => rfl) ?_ nofun ?_ ?_ ?_
  · rw [changes_of_none rfl, hself]
    exact hfits _ (hb.fits c)
  · intro pid
    by_cases hpid : pid = op.pid debited
    · rw [hpid, hcalled]
      exact hb.nonneg _
    · rw [haccount pid hpid]
      exact hb.nonneg pid
  · intro pid
    by_cases hpid : pid = op.pid debited
    · rw [hpid, hcalled]
      intro halive m hm
      rcases List.mem_append.mp hm with hm | hm
      · exact (hb.awaits _ halive m hm).congr (hother _ (hfrom _ halive m hm))
      · rw [List.mem_singleton.mp hm]
        refine ⟨op, debited, ?_, rfl, ?_⟩
        · rw [Op.tag_message]
          exact hself
        · rw [Op.tag_message]
    · rw [haccount pid hpid]
      exact fun halive m hm => (hb.awaits pid halive m hm).congr (hother _ (hfrom _ halive m hm))
  · intro pid
    by_cases hpid : pid = op.pid debited
    · rw [hpid, hcalled]
      intro halive
      rw [List.map_append, List.map_singleton, Op.tag_message]
      refine List.Nodup.append (hb.nodup _ halive) (List.nodup_singleton _) ?_
      intro tag htag hmem
      obtain ⟨m, hm, rfl⟩ := List.mem_map.mp htag
      exact hfrom _ halive m hm (by rw [List.mem_singleton.mp hmem])
    · rw [haccount pid hpid]
      exact hb.nodup pid

/-- An account handles a message. -/
theorem Books.handled (hb : Books h s) {pid : π} {m : Message κ} {rest : List (Message κ)}
    (halive : (s.account pid).alive = true) (hmailbox : (s.account pid).mailbox = m :: rest) :
    Books
      (h ++ [.handled pid m.tag
        (((s.account pid).handle m rest).2.balance - (s.account pid).balance)])
      ((s.setAccount pid ((s.account pid).handle m rest).2).deliver m.tag
        ((s.account pid).handle m rest).1) := by
  obtain ⟨op, debited, hclient, hpid, hm⟩ :=
    hb.awaits pid halive m (by rw [hmailbox]; exact List.mem_cons_self)
  have hnodup := hb.nodup pid halive
  rw [hmailbox, List.map_cons, List.nodup_cons] at hnodup
  rw [deliver_of_waiting (s.setAccount pid ((s.account pid).handle m rest).2)
    ((s.account pid).handle m rest).1 hclient]
  generalize hr : (s.account pid).handle m rest = r
  have hrest : r.2.mailbox = rest := by rw [← hr, mailbox_handle]
  have hself : ((s.setAccount pid r.2).setPhase m.tag.1 (.replied op debited r.1)).client m.tag.1 =
      ⟨m.tag.2, .replied op debited r.1⟩ := by
    rw [client_setPhase_self]
    show (⟨(s.client m.tag.1).number, _⟩ : Client π) = _
    rw [hclient]
  have hother : ∀ d, d ≠ m.tag.1 →
      ((s.setAccount pid r.2).setPhase m.tag.1 (.replied op debited r.1)).client d = s.client d :=
    fun d hd => client_setPhase_of_ne _ _ _ hd
  have haccount : ((s.setAccount pid r.2).setPhase m.tag.1 (.replied op debited r.1)).account pid =
      r.2 := Function.update_self _ _ _
  have haccounts : ∀ pid', pid' ≠ pid →
      ((s.setAccount pid r.2).setPhase m.tag.1 (.replied op debited r.1)).account pid' =
        s.account pid' := fun pid' hne => Function.update_of_ne hne _ _
  have hnumber : (s.client m.tag.1).number = m.tag.2 := by rw [hclient]
  refine hb.of_update hother (by rw [hself, hnumber]) (by rw [hclient]; exact nofun)
    (fun tag hne => change_of_ne fun heq => hne ?_) ?_ nofun ?_ ?_ ?_
  · rw [hnumber, ← heq]
  · have hfits := hb.fits m.tag.1
    rw [hclient] at hfits
    have hnow := fits_handle m.tag hfits (s.account pid) rest
    rw [← hm, hpid, hr] at hnow
    rw [hself, changes_snoc]
    exact hnow
  · intro pid'
    by_cases hpid' : pid' = pid
    · rw [hpid', haccount, ← hr]
      exact handle_nonneg _ _ _ (hb.nonneg pid)
    · rw [haccounts pid' hpid']
      exact hb.nonneg pid'
  · intro pid'
    by_cases hpid' : pid' = pid
    · rw [hpid', haccount, hrest]
      intro _ m' hm'
      have hwas := hb.awaits pid halive m' (by rw [hmailbox]; exact List.mem_cons_of_mem _ hm')
      refine hwas.congr (hother _ fun heq => hnodup.1 ?_)
      -- two messages of one client would have one tag
      obtain ⟨op', debited', hclient', -⟩ := hwas
      rw [heq, hclient, Client.mk.injEq] at hclient'
      rw [show m.tag = m'.tag from Prod.ext heq.symm hclient'.1]
      exact List.mem_map_of_mem hm'
    · rw [haccounts pid' hpid']
      intro halive' m' hm'
      have hwas := hb.awaits pid' halive' m' hm'
      refine hwas.congr (hother _ fun heq => hpid' ?_)
      obtain ⟨op', debited', hclient', hpid'', -⟩ := hwas
      rw [heq, hclient, Client.mk.injEq, Phase.waiting.injEq] at hclient'
      rw [← hpid'', ← hclient'.2.1, ← hclient'.2.2, hpid]
  · intro pid'
    by_cases hpid' : pid' = pid
    · rw [hpid', haccount, hrest]
      exact fun _ => hnodup.2
    · rw [haccounts pid' hpid']
      exact hb.nodup pid'

/-- **The step lemma** of the books. -/
theorem Books.effect (hb : Books h s) (heffect : Effect s a e s') : Books (h ++ [e]) s' := by
  cases heffect with
  | called c op hidle =>
      refine hb.send (fun _ _ => by rw [hidle]; exact nofun) (by rw [hidle]; exact nofun) ?_
      rw [hidle]
      exact fun changes hfits => hfits
  | handled pid m rest halive hmailbox => exact hb.handled halive hmailbox
  | goesOn c fromPid toPid amount newFromBal hphase =>
      refine hb.send (fun _ _ => by rw [hphase]; exact nofun) (by rw [hphase]; exact nofun) ?_
      rw [hphase]
      exact fun changes hfits => hfits
  | ended c op debited reply result hphase hnext => exact hb.finish hphase hnext
  | down c op debited hphase hdead => exact hb.down hphase hdead

/-- The books are kept in every run. -/
theorem run_books {ok : Bank π κ → Action π κ → Prop} {initial : π → InitialBalance}
    (hr : Run step ok (Bank.start initial) h s) : Books h s :=
  Run.invariant Books (.start initial) (fun _ _ _ _ _ hb _ hs => hb.effect (effect_step hs)) hr

end Bank

/-! ## When a transfer is atomic -/

/-- The account that a transfer has still to credit, when it has debited the other one. -/
def Phase.owes {π : Type*} : Phase π → Option π
  | .waiting (.transfer _ toPid _) (some _) => some toPid
  | .replied (.transfer _ toPid _) none (.ok _) => some toPid
  | _ => none

/-- The account that a transfer is to credit, when it has not yet debited the other one. -/
def Phase.target {π : Type*} : Phase π → Option π
  | .waiting (.transfer _ toPid _) none => some toPid
  | _ => none

/-- A transfer that returns `{ok, _, _}` has debited and credited the amount, once each. -/
def Credited {π κ : Type*} [DecidableEq κ] (h : List (Event π κ)) : Prop :=
  ∀ tag fromPid toPid amount newFromBal newToBal,
    .ended tag (.transfer fromPid toPid amount) (.transferred newFromBal newToBal) ∈ h →
      changes h tag = [(fromPid, -amount), (toPid, amount)]

/-- A transfer that has ended in any other way has not changed the balance of the account it is
from. -/
def Restored {π κ : Type*} [DecidableEq π] [DecidableEq κ] (h : List (Event π κ)) : Prop :=
  ∀ tag fromPid toPid amount result, .ended tag (.transfer fromPid toPid amount) result ∈ h →
    (∀ newFromBal newToBal, result ≠ .transferred newFromBal newToBal) →
      netChange (changes h tag) fromPid = 0

namespace Bank

variable {π κ : Type*}

/-- An account may handle a message, unless it stops while a transfer has still to credit it, or
is debited by a transfer to an account that has stopped. -/
def MayHandle (s : Bank π κ) (pid : π) : Message κ → Prop
  | .stop _ => ∀ c, (s.client c).phase.owes ≠ some pid
  | .call (.withdraw amount) tag => 0 < amount → amount ≤ (s.account pid).balance →
      ∀ toPid ∈ (s.client tag.1).phase.target, (s.account toPid).alive = true
  | .call .balance _ | .call (.deposit _) _ => True

/-- Whatever a transfer has still to credit is kept alive. -/
def KeepsAlive (s : Bank π κ) : Action π κ → Prop
  | .handle pid => ∀ m ∈ (s.account pid).mailbox.head?, s.MayHandle pid m
  | .call _ _ | .resume _ | .down _ => True

instance [DecidableEq π] [Fintype κ] (s : Bank π κ) (pid : π) : ∀ m, Decidable (s.MayHandle pid m)
  | .stop _ => inferInstanceAs (Decidable (∀ c, (s.client c).phase.owes ≠ some pid))
  | .call (.withdraw amount) tag => inferInstanceAs (Decidable (0 < amount →
      amount ≤ (s.account pid).balance →
        ∀ toPid ∈ (s.client tag.1).phase.target, (s.account toPid).alive = true))
  | .call .balance _ | .call (.deposit _) _ => .isTrue trivial

instance [DecidableEq π] [Fintype κ] (s : Bank π κ) : ∀ a, Decidable (s.KeepsAlive a)
  | .handle pid => inferInstanceAs
      (Decidable (∀ m ∈ (s.account pid).mailbox.head?, s.MayHandle pid m))
  | .call _ _ | .resume _ | .down _ => .isTrue trivial

variable [DecidableEq π] [DecidableEq κ] {h : List (Event π κ)} {s s' : Bank π κ}
  {a : Action π κ} {e : Event π κ}

omit [DecidableEq π] in
/-- A reply is nothing to the accounts. -/
theorem account_deliver (s : Bank π κ) (tag : Tag κ) (reply : Reply) :
    (s.deliver tag reply).account = s.account := by
  rw [deliver]
  split
  · split_ifs <;> rfl
  · rfl

/-- A message that is sent neither starts nor stops an account. -/
theorem alive_send (c : κ) (op : Op π) (debited : Option ℤ) (pid : π) :
    ((s.send c op debited).account pid).alive = (s.account pid).alive := by
  show (Function.update s.account (op.pid debited) _ pid).alive = _
  by_cases hpid : pid = op.pid debited
  · rw [hpid, Function.update_self]
  · rw [Function.update_of_ne hpid]

/-- An account is alive after it has handled a message, unless it is stopped by it. -/
theorem alive_handled {pid : π} {m : Message κ} {rest : List (Message κ)} (reply : Reply)
    (pid' : π) (hm : pid' = pid → ∀ tag, m ≠ .stop tag) :
    (((s.setAccount pid ((s.account pid).handle m rest).2).deliver m.tag reply).account
      pid').alive = (s.account pid').alive := by
  rw [account_deliver]
  show (Function.update s.account pid _ pid').alive = _
  by_cases hpid : pid' = pid
  · rw [hpid, Function.update_self]
    cases m with
    | call request tag => rfl
    | stop tag => exact absurd rfl (hm hpid tag)
  · rw [Function.update_of_ne hpid]

/-- The handling of a message and the client that has sent it. -/
theorem Books.client_handled (hb : Books h s) {pid : π} {m : Message κ} {rest : List (Message κ)}
    (halive : (s.account pid).alive = true) (hmailbox : (s.account pid).mailbox = m :: rest)
    (a : Account κ) (reply : Reply) :
    ∃ op debited, s.client m.tag.1 = ⟨m.tag.2, .waiting op debited⟩ ∧
      m = op.message debited m.tag ∧
      ((s.setAccount pid a).deliver m.tag reply).client m.tag.1 =
        ⟨m.tag.2, .replied op debited reply⟩ ∧
      ∀ d, d ≠ m.tag.1 → ((s.setAccount pid a).deliver m.tag reply).client d = s.client d := by
  obtain ⟨op, debited, hclient, -, hm⟩ :=
    hb.awaits pid halive m (by rw [hmailbox]; exact List.mem_cons_self)
  refine ⟨op, debited, hclient, hm, ?_, fun d hd => ?_⟩
  · rw [deliver_of_waiting (s.setAccount pid a) reply hclient, client_setPhase_self]
    show (⟨(s.client m.tag.1).number, _⟩ : Client π) = _
    rw [hclient]
  · rw [deliver_of_waiting (s.setAccount pid a) reply hclient, client_setPhase_of_ne _ _ _ hd]
    rfl

omit [DecidableEq π] in
/-- A transfer owes after its withdrawal has been accepted. -/
theorem of_owes_replied {op : Op π} {debited : Option ℤ} {reply : Reply} {toPid : π}
    (h : (Phase.replied op debited reply).owes = some toPid) :
    ∃ fromPid amount newFromBal, op = .transfer fromPid toPid amount ∧ debited = none ∧
      reply = .ok newFromBal := by
  cases op with
  | transfer fromPid toPid' amount =>
      cases debited with
      | none =>
          cases reply <;> cases h
          exact ⟨fromPid, amount, _, rfl, rfl, rfl⟩
      | some newFromBal => cases reply <;> cases h
  | balance | deposit | withdraw | stop => cases h

omit [DecidableEq π] in
/-- Who waits and owes has made a withdrawal for a transfer. -/
theorem of_owes_waiting {op : Op π} {debited : Option ℤ} {toPid : π}
    (h : (Phase.waiting op debited).owes = some toPid) :
    ∃ fromPid amount newFromBal, op = .transfer fromPid toPid amount ∧
      debited = some newFromBal := by
  cases op with
  | transfer fromPid toPid' amount =>
      cases debited with
      | none => cases h
      | some newFromBal =>
          cases h
          exact ⟨fromPid, amount, newFromBal, rfl, rfl⟩
  | balance | deposit | withdraw | stop => cases h

omit [DecidableEq π] in
/-- Who waits for another account has begun a transfer. -/
theorem of_target {op : Op π} {debited : Option ℤ} {toPid : π}
    (h : toPid ∈ (Phase.waiting op debited).target) :
    ∃ fromPid amount, op = .transfer fromPid toPid amount ∧ debited = none := by
  cases op with
  | transfer fromPid toPid' amount =>
      cases debited with
      | none =>
          cases h
          exact ⟨fromPid, amount, rfl, rfl⟩
      | some newFromBal => cases h
  | balance | deposit | withdraw | stop => cases h

/-- Whatever a transfer has still to credit is alive. -/
def OwesAlive (s : Bank π κ) : Prop :=
  ∀ c, ∀ toPid, (s.client c).phase.owes = some toPid → (s.account toPid).alive = true

/-- A client that sends a message owes nothing new. -/
theorem OwesAlive.send (hall : s.OwesAlive) {c : κ} {op : Op π} {debited : Option ℤ}
    (howes : ∀ toPid, (Phase.waiting op debited).owes = some toPid →
      (s.client c).phase.owes = some toPid) : (s.send c op debited).OwesAlive := by
  intro d toPid hd
  rw [alive_send]
  by_cases hdc : d = c
  · rw [hdc, show (s.send c op debited).client c = ⟨_, .waiting op debited⟩ from
      Function.update_self _ _ _] at hd
    exact hall c toPid (howes toPid hd)
  · rw [show (s.send c op debited).client d = s.client d from Function.update_of_ne hdc _ _] at hd
    exact hall d toPid hd

omit [DecidableEq π] in
/-- A client that has its result owes nothing. -/
theorem OwesAlive.finish (hall : s.OwesAlive) (c : κ) (result : Result) :
    (s.finish c result).OwesAlive := by
  intro d toPid hd
  rw [account_finish]
  by_cases hdc : d = c
  · have hnone : ((s.finish c result).client c).phase.owes = none := by
      by_cases hr : result = .exited
      · rw [hr, show (s.finish c .exited).client c = ⟨_, .exited⟩ from client_setPhase_self s c _]
        rfl
      · rw [client_finish_self s c hr]
        rfl
    rw [hdc, hnone] at hd
    cases hd
  · rw [client_finish_of_ne s c result hdc] at hd
    exact hall d toPid hd

/-- A step that keeps alive whatever a transfer has still to credit does so. -/
theorem OwesAlive.effect (hall : s.OwesAlive) (hb : Books h s) (hkeeps : s.KeepsAlive a)
    (heffect : Effect s a e s') : s'.OwesAlive := by
  cases heffect with
  | called c op hidle => exact hall.send fun toPid howes => by cases op <;> cases howes
  | goesOn c fromPid toPid amount newFromBal hphase =>
      refine hall.send fun toPid' howes => ?_
      rw [hphase]
      exact howes
  | ended c op debited reply result _ _ => exact hall.finish c result
  | down c op debited _ _ => exact hall.finish c .exited
  | handled pid m rest halive hmailbox =>
      have hmay : s.MayHandle pid m := hkeeps m (by rw [hmailbox]; rfl)
      obtain ⟨op, debited, hclient, hm, hself, hother⟩ :=
        hb.client_handled halive hmailbox ((s.account pid).handle m rest).2
          ((s.account pid).handle m rest).1
      intro d toPid howes
      by_cases hd : d = m.tag.1
      · rw [hd, hself] at howes
        obtain ⟨fromPid, amount, newFromBal, rfl, rfl, hreply⟩ := of_owes_replied howes
        have hcall : m = .call (.withdraw amount) m.tag := hm
        rw [alive_handled _ _ fun _ tag => by rw [hcall]; exact nofun]
        -- the withdrawal has been accepted, so the guard holds
        rw [hcall] at hreply hmay
        have hguard : 0 < amount ∧ amount ≤ (s.account pid).balance := by
          by_contra hno
          have hrefused : handleCall (.withdraw amount) (s.account pid).balance =
              (.insufficientFunds, (s.account pid).balance) := if_neg hno
          rw [Account.handle, hrefused] at hreply
          cases hreply
        refine hmay hguard.1 hguard.2 toPid ?_
        rw [hclient]
        rfl
      · rw [hother d hd] at howes
        rw [alive_handled _ _ ?_]
        · exact hall d toPid howes
        · rintro rfl tag rfl
          exact hmay d howes

/-- An event is about an operation that has not ended. -/
theorem Books.change_of_past (hb : Books h s) (heffect : Effect s a e s') {tag : Tag κ}
    (hpast : s.Past tag) : e.change tag = none := by
  cases heffect with
  | called | goesOn | ended | down => rfl
  | handled pid m rest halive hmailbox =>
      refine change_of_ne ?_
      rintro rfl
      obtain ⟨op, debited, hclient, -⟩ :=
        hb.awaits pid halive m (by rw [hmailbox]; exact List.mem_cons_self)
      rw [Past, hclient] at hpast
      rcases hpast with hlt | heq
      · exact Nat.lt_irrefl _ hlt
      · rw [Client.mk.injEq] at heq
        cases heq.2

/-- If what is to be credited is kept alive, a transfer exits only before it debits. -/
theorem run_keepsAlive {initial : π → InitialBalance}
    (hr : Run step KeepsAlive (Bank.start initial) h s) :
    s.OwesAlive ∧ ∀ tag fromPid toPid amount,
      .ended tag (.transfer fromPid toPid amount) .exited ∈ h → changes h tag = [] := by
  induction hr with
  | nil => exact ⟨nofun, fun _ _ _ _ hmem => absurd hmem List.not_mem_nil⟩
  | @snoc h s s' a e hr hkeeps hs ih =>
      obtain ⟨hall, hexits⟩ := ih
      have hb := run_books hr
      have heffect := effect_step hs
      refine ⟨hall.effect hb hkeeps heffect, fun tag fromPid toPid amount hmem => ?_⟩
      rcases List.mem_append.mp hmem with hmem | hmem
      · rw [changes_of_none (hb.change_of_past heffect (hb.ended _ _ _ hmem).1)]
        exact hexits tag fromPid toPid amount hmem
      · have he := List.mem_singleton.mp hmem
        subst he
        rw [changes_of_none rfl]
        cases heffect with
        | ended c op debited reply result hphase hnext =>
            have hfits := hb.fits c
            rw [hphase] at hfits
            exact absurd hnext (ne_exited_of_next hfits)
        | down c op debited hphase hdead =>
            have hfits := hb.fits c
            rw [hphase] at hfits
            cases debited with
            | none => exact hfits
            | some newFromBal =>
                -- the account to be credited would be alive
                have halive := hall c toPid (by rw [hphase]; rfl)
                exact absurd (hdead.symm.trans halive) Bool.false_ne_true

/-! ## When it is not -/

/-- A withdrawal alone is a loss. -/
theorem netChange_debit {amount : ℤ} (hpos : 0 < amount) (fromPid : π) :
    netChange [(fromPid, -amount)] fromPid ≠ 0 := by
  simp [netChange]
  omega

/-- If an account has stopped that a transfer has still to credit, the caller exits. -/
theorem exists_exit_of_waiting {initial : π → InitialBalance}
    (hr : Run step anyStep (Bank.start initial) h s) {c : κ} {fromPid toPid : π}
    {amount newFromBal : ℤ}
    (hphase : (s.client c).phase = .waiting (.transfer fromPid toPid amount) (some newFromBal))
    (hdead : (s.account toPid).alive = false) :
    ∃ h' s', Run step anyStep s h' s' ∧ ¬ Restored (h ++ h') := by
  have hfits := (run_books hr).fits c
  rw [hphase] at hfits
  obtain ⟨hpos, hchanges⟩ := hfits
  have hdown : s.step (.down c) = some (.ended (c, (s.client c).number)
      (.transfer fromPid toPid amount) .exited, s.finish c .exited) := by
    simp only [step, hphase, Op.pid, hdead, if_true]
  refine ⟨_, _, Run.nil.snoc trivial hdown, fun hrestored => ?_⟩
  have hzero := hrestored (c, (s.client c).number) fromPid toPid amount .exited
    (List.mem_append_right _ (List.mem_singleton_self _)) nofun
  rw [List.nil_append, changes_of_none rfl, hchanges] at hzero
  exact netChange_debit hpos fromPid hzero

/-- If the account that is to be credited is dead, the client exits and the money stays away. -/
theorem exists_exit {initial : π → InitialBalance}
    (hr : Run step anyStep (Bank.start initial) h s) {c : κ} {toPid : π}
    (howes : (s.client c).phase.owes = some toPid) (hdead : (s.account toPid).alive = false) :
    ∃ h' s', Run step anyStep s h' s' ∧ ¬ Restored (h ++ h') := by
  cases hphase : (s.client c).phase with
  | waiting op debited =>
      rw [hphase] at howes
      obtain ⟨fromPid, amount, newFromBal, rfl, rfl⟩ := of_owes_waiting howes
      exact exists_exit_of_waiting hr hphase hdead
  | replied op debited reply =>
      -- the transfer goes on to its second call
      rw [hphase] at howes
      obtain ⟨fromPid, amount, newFromBal, rfl, rfl, rfl⟩ := of_owes_replied howes
      have hresume : s.step (.resume c) = some (.called c,
          s.send c (.transfer fromPid toPid amount) (some newFromBal)) := by
        simp only [step, hphase, Op.next]
      have hphase' : ((s.send c (.transfer fromPid toPid amount) (some newFromBal)).client
          c).phase = .waiting (.transfer fromPid toPid amount) (some newFromBal) := by
        rw [show (s.send c _ _).client c = ⟨_, .waiting _ _⟩ from Function.update_self _ _ _]
      obtain ⟨h', s', hr', hno⟩ := exists_exit_of_waiting (hr.snoc trivial hresume) hphase'
        (by rw [alive_send]; exact hdead)
      refine ⟨[.called c] ++ h', s', Run.trans (Run.nil.snoc trivial hresume) hr', ?_⟩
      rw [← List.append_assoc]
      exact hno
  | idle | exited =>
      rw [hphase] at howes
      cases howes

/-- A step that does not keep alive what is to be credited. -/
theorem exists_owes_of_not_keepsAlive (hb : Books h s) (heffect : Effect s a e s')
    (hno : ¬ s.KeepsAlive a) :
    ∃ c toPid, (s'.client c).phase.owes = some toPid ∧ (s'.account toPid).alive = false := by
  cases heffect with
  | called | goesOn | ended | down => exact absurd trivial hno
  | handled pid m rest halive hmailbox =>
      have hmay : ¬ s.MayHandle pid m := by
        intro hmay
        refine hno fun m' hm' => ?_
        rw [hmailbox] at hm'
        rw [← Option.some.inj hm']
        exact hmay
      obtain ⟨op, debited, hclient, hm, hself, hother⟩ :=
        hb.client_handled halive hmailbox ((s.account pid).handle m rest).2
          ((s.account pid).handle m rest).1
      cases m with
      | stop tag =>
          obtain ⟨c, hc⟩ := not_forall.mp hmay
          have howes : (s.client c).phase.owes = some pid := not_not.mp hc
          refine ⟨c, pid, ?_, ?_⟩
          · rw [hother c ?_]
            · exact howes
            · rintro rfl
              rw [hclient] at howes
              obtain ⟨fromPid, amount, newFromBal, rfl, rfl⟩ := of_owes_waiting howes
              cases hm
          · rw [account_deliver]
            show (Function.update s.account pid _ pid).alive = false
            rw [Function.update_self]
            rfl
      | call request tag =>
          cases request with
          | balance | deposit => exact absurd trivial hmay
          | withdraw amount =>
              obtain ⟨hpos, hmay⟩ := Classical.not_imp.mp hmay
              obtain ⟨hle, hmay⟩ := Classical.not_imp.mp hmay
              obtain ⟨toPid, hmay⟩ := not_forall.mp hmay
              obtain ⟨htarget, hdead⟩ := Classical.not_imp.mp hmay
              rw [show s.client tag.1 = ⟨tag.2, .waiting op debited⟩ from hclient] at htarget
              obtain ⟨fromPid, amount', rfl, rfl⟩ := of_target htarget
              have hpair : amount = amount' := by
                cases hm
                rfl
              refine ⟨(Message.call (.withdraw amount) tag).tag.1, toPid, ?_, ?_⟩
              · rw [hself, ← hpair, Account.handle, handleCall, if_pos ⟨hpos, hle⟩]
                rfl
              · rw [alive_handled _ _ fun _ _ heq => by cases heq]
                exact Bool.eq_false_iff.mpr hdead

/-- **Transfers.**  In every run a transfer that returns `{ok, _, _}` has debited and credited the
amount, and no balance is negative.  If the accounts that transfers have still to credit are kept
alive, a transfer that ends in any other way has changed nothing at the account it is from.
And any step that does not keep them alive can lead to a transfer that loses its amount. -/
theorem run_transfer (initial : π → InitialBalance) :
    (∀ h (s : Bank π κ), Run step anyStep (Bank.start initial) h s →
      Credited h ∧ ∀ pid, 0 ≤ (s.account pid).balance) ∧
    (∀ h (s : Bank π κ), Run step KeepsAlive (Bank.start initial) h s → Restored h) ∧
    ∀ h (s : Bank π κ) a e s', Run step anyStep (Bank.start initial) h s →
      s.step a = some (e, s') → ¬ s.KeepsAlive a →
        ∃ h' s'', Run step anyStep s' h' s'' ∧ ¬ Restored (h ++ [e] ++ h') := by
  refine ⟨fun h s hr => ⟨?_, (run_books hr).nonneg⟩, fun h s hr => ?_,
    fun h s a e s' hr hs hno => ?_⟩
  · intro tag fromPid toPid amount newFromBal newToBal hmem
    exact ((run_books hr).ended _ _ _ hmem).2
  · intro tag fromPid toPid amount result hmem hresult
    have hnil : changes h tag = [] := by
      cases result with
      | replied reply => exact ((run_books hr).ended _ _ _ hmem).2
      | transferred newFromBal newToBal => exact absurd rfl (hresult newFromBal newToBal)
      | exited => exact (run_keepsAlive hr).2 tag fromPid toPid amount hmem
    rw [hnil]
    rfl
  · obtain ⟨c, toPid, howes, hdead⟩ :=
      exists_owes_of_not_keepsAlive (run_books hr) (effect_step hs) hno
    exact exists_exit (hr.snoc trivial hs) howes hdead

/-- Two accounts, with balances of 10 and 0. -/
def twoAccounts : Bool → InitialBalance
  | true => ⟨10, by decide⟩
  | false => ⟨0, by decide⟩

/-- The second account is stopped before the transfer to it starts. -/
def transferToStopped : List (Action Bool Bool) :=
  [.call false (.stop false), .handle false, .resume false,
    .call true (.transfer true false 4), .handle true, .resume true, .down true]

/-- The caller exits, and the first account has been debited. -/
theorem not_restored : ¬ ∀ (initial : Bool → InitialBalance) h (s : Bank Bool Bool),
    Run step anyStep (Bank.start initial) h s → Restored h := by
  intro hall
  have hr := run_of_replay (step (π := Bool) (κ := Bool)) (s := Bank.start twoAccounts)
    transferToStopped rfl
  have hzero := hall twoAccounts _ _ hr (true, 0) true false 4 .exited
    (List.mem_of_getElem? (i := 6) rfl) nofun
  exact absurd hzero (by decide)

/-- A transfer that goes through, one that is refused, and one to an account that has stopped, after
what is left in the first account has been withdrawn. -/
def transfersInTime : List (Action Bool Bool) :=
  [.call true (.transfer true false 4), .handle true, .resume true, .handle false, .resume true,
    .call true (.transfer false true 9), .handle false, .resume true,
    .call false (.stop false), .handle false, .resume false,
    .call true (.transfer true false 7), .handle true, .resume true]

/-- A run with a transfer that is made and one that is refused. -/
theorem run_transfer_inTime : ∃ (h : List (Event Bool Bool)) (s : Bank Bool Bool),
    Run step KeepsAlive (Bank.start twoAccounts) h s ∧ Credited h ∧ Restored h ∧
      changes h (true, 0) = [(true, -4), (false, 4)] ∧ changes h (true, 2) = [] ∧
      (s.account true).balance = 6 ∧ (s.account false).balance = 4 := by
  have hr := run_of_replay_guarded (step (π := Bool) (κ := Bool)) KeepsAlive
    (s := Bank.start twoAccounts) transfersInTime rfl
  have hany := run_of_replay (step (π := Bool) (κ := Bool)) (s := Bank.start twoAccounts)
    transfersInTime rfl
  exact ⟨_, _, hr, ((run_transfer twoAccounts).1 _ _ hany).1,
    (run_transfer twoAccounts).2.1 _ _ hr, by decide, by decide, by decide, by decide⟩

end Bank

end Actor
