/-
# The calls in an order (`python/shared_memory_lock/bank_account.py`)

What threads see of the accounts is what they would see if their calls were made one at a time on a
plain map from accounts to balances.  A call takes its place in that order when its thread acquires
the last of its locks: from then on no other thread reads or writes the balances that the rest of
its body does (`Body.Within`), and so the body ends as it would if it ran at once (`Body.exec`).
Between the acquisition and the writes the map is ahead of the balances (`Bank.ledger`).

* `Placed.linearizes` : the order of the calls, read off a run that has it;
* `run_linearizable` : the whole statement.
-/
import Cocurrency.Lock.Ledger

namespace Lock

/-! ## Where the threads stand to the order -/

section Placement

variable {τ ι : Type*} [DecidableEq ι]

/-- The balances as they will be once the thread has ended its call; they already are so in the
ledger if the thread has all its locks. -/
def Phase.ledger (m : ι → ℤ) : Phase ι → ι → ℤ
  | .running _ [] body => (body.exec m).2
  | _ => m

/-- The calls that the thread has made and that have ended, against those in the order: one that
has all its locks is in the order, with the result that it will have. -/
def Phase.Placed (accountId : ι → String) (m : ι → ℤ) (made : List (Op ι)) (done : List Result)
    (entries : List (Entry τ ι)) : Phase ι → Prop
  | .idle => entries.map Entry.op = made ∧ entries.map Entry.result = done
  | .running held [] body =>
      entries.map Entry.op = made ∧ entries.map Entry.result = done ++ [(body.exec m).1] ∧
        body.Within held ∧ body.Safe m
  | .running held (account :: toLock) body =>
      ∃ op, entries.map Entry.op ++ [op] = made ∧ entries.map Entry.result = done ∧
        body = (op.call accountId).body ∧
        held.reverse ++ account :: toLock = (op.call accountId).locks

/-- A thread in a call that has written raises no error. -/
def Phase.Returns : Phase ι → Prop
  | .idle => True
  | .running _ _ body => body.Returns

namespace Bank

/-- The plain map: the accounts that a thread with all its locks has locked are ahead of their
balances. -/
def ledger (s : Bank τ ι) (account : ι) : ℤ :=
  match s.lock account with
  | none => s.balance account
  | some t => (s.thread t).phase.ledger s.balance account

/-- The order of the calls, and the ledger after them. -/
structure Placed [DecidableEq τ] (accountId : ι → String) (initial : ι → ℤ)
    (h : List (Event τ ι)) (s : Bank τ ι) (order : List (Entry τ ι)) : Prop where
  serial : Run (ledgerStep accountId) anyStep initial order s.ledger
  nonneg : ∀ account, 0 ≤ s.balance account
  thread : ∀ t, (s.thread t).phase.Placed accountId s.balance (opsOf t h) (resultsOf t h)
    (entriesOf t order)

end Bank

end Placement

namespace Bank

variable {τ ι : Type*} [DecidableEq ι] {accountId : ι → String} {initial : ι → ℤ}
  {h : List (Event τ ι)} {s s' : Bank τ ι} {t : τ} {e : Event τ ι} {order : List (Entry τ ι)}

/-- An account that is free has its balance. -/
theorem ledger_of_free {account : ι} (hfree : s.lock account = none) :
    s.ledger account = s.balance account := by
  rw [ledger, hfree]

/-- An account that is locked has what its holder will leave. -/
theorem ledger_of_held {account : ι} (hheld : s.lock account = some t) :
    s.ledger account = (s.thread t).phase.ledger s.balance account := by
  rw [ledger, hheld]

/-- A phase depends on the balances of the accounts that it holds. -/
theorem placed_congr {p : Phase ι} {m m' : ι → ℤ} {made : List (Op ι)} {done : List Result}
    {entries : List (Entry τ ι)} (hp : p.Placed accountId m made done entries)
    (hsame : ∀ account ∈ p.held, m account = m' account) :
    p.Placed accountId m' made done entries ∧
      ∀ account ∈ p.held, p.ledger m account = p.ledger m' account := by
  cases p with
  | idle => exact ⟨hp, hsame⟩
  | running held toLock body =>
      cases toLock with
      | cons account toLock => exact ⟨hp, hsame⟩
      | nil =>
          obtain ⟨hmade, hdone, hwithin, hsafe⟩ := hp
          obtain ⟨hresult, hledger⟩ := exec_congr hwithin hsame
          rw [hresult] at hdone
          exact ⟨⟨hmade, hdone, hwithin, safe_congr hwithin hsame hsafe⟩, hledger⟩

variable [DecidableEq τ]

/-- **The other threads.**  A step of thread `t` that writes no balance of theirs leaves them where
they stand. -/
theorem Placed.of_update (hl : LocksOk accountId s) (hp : Placed accountId initial h s order)
    {th : Thread ι} {order' : List (Entry τ ι)}
    (hthread : s'.thread = Function.update s.thread t th) (he : e.thread = t)
    (hentries : ∀ u, u ≠ t → entriesOf u order' = entriesOf u order)
    (hsame : ∀ account, s.lock account ≠ some t → s'.balance account = s.balance account)
    (hserial : Run (ledgerStep accountId) anyStep initial order' s'.ledger)
    (hnonneg : ∀ account, 0 ≤ s'.balance account)
    (hme : th.phase.Placed accountId s'.balance (opsOf t (h ++ [e])) (resultsOf t (h ++ [e]))
      (entriesOf t order')) : Placed accountId initial (h ++ [e]) s' order' := by
  refine ⟨hserial, hnonneg, fun u => ?_⟩
  rw [hthread]
  by_cases hu : u = t
  · rw [hu, Function.update_self]
    exact hme
  · have hne : e.thread ≠ u := fun heq => hu (heq.symm.trans he)
    rw [Function.update_of_ne hu, opsOf_of_ne hne, resultsOf_of_ne hne, hentries u hu]
    refine (placed_congr (hp.thread u) fun account hmem => ?_).1
    have hheld := (hl.holder_iff account u).mpr hmem
    exact (hsame account (by rw [hheld]; exact fun heq => hu (Option.some.inj heq))).symm

/-- The ledger where the lock of an account and its balance, and those of its holder, are as
before. -/
theorem ledger_frame (hl : LocksOk accountId s) (hp : Placed accountId initial h s order)
    {th : Thread ι} (hthread : s'.thread = Function.update s.thread t th)
    (hsame : ∀ account, s.lock account ≠ some t → s'.balance account = s.balance account)
    {account : ι} (hlock : s'.lock account = s.lock account) (hnot : s.lock account ≠ some t) :
    s'.ledger account = s.ledger account := by
  cases hheld : s.lock account with
  | none =>
      rw [ledger_of_free hheld, ledger_of_free (hlock.trans hheld), hsame account hnot]
  | some u =>
      have hu : u ≠ t := fun heq => hnot (by rw [hheld, heq])
      rw [ledger_of_held hheld, ledger_of_held (hlock.trans hheld), hthread,
        Function.update_of_ne hu]
      refine ((placed_congr (hp.thread u) fun account' hmem' => ?_).2 account
        ((hl.holder_iff account u).mp hheld)).symm
      have hheld' := (hl.holder_iff account' u).mpr hmem'
      exact (hsame account' (by rw [hheld']; exact fun heq => hu (Option.some.inj heq))).symm

/-- A step that takes and releases no lock, and after which thread `t` will leave the same balances,
keeps the ledger. -/
theorem ledger_move (hl : LocksOk accountId s) (hp : Placed accountId initial h s order)
    {th : Thread ι} (hlock : s'.lock = s.lock)
    (hthread : s'.thread = Function.update s.thread t th)
    (hsame : ∀ account, s.lock account ≠ some t → s'.balance account = s.balance account)
    (hme : ∀ account ∈ (s.thread t).phase.held,
      th.phase.ledger s'.balance account = (s.thread t).phase.ledger s.balance account) :
    s'.ledger = s.ledger := by
  funext account
  by_cases hmine : s.lock account = some t
  · rw [ledger_of_held hmine, ledger_of_held (t := t) (by rw [hlock, hmine]), hthread,
      Function.update_self]
    exact hme account ((hl.holder_iff account t).mp hmine)
  · exact ledger_frame hl hp hthread hsame (congrFun hlock account) hmine

/-- Taking or releasing the lock of one account keeps the ledger, if it does so there. -/
theorem ledger_relock (hl : LocksOk accountId s) (hp : Placed accountId initial h s order)
    {th : Thread ι} (hthread : s'.thread = Function.update s.thread t th)
    (hbalance : s'.balance = s.balance) {account : ι}
    (hlock : ∀ account', account' ≠ account → s'.lock account' = s.lock account')
    (hself : s'.ledger account = s.ledger account)
    (hme : th.phase.ledger s.balance = (s.thread t).phase.ledger s.balance) :
    s'.ledger = s.ledger := by
  funext account'
  by_cases ha : account' = account
  · rw [ha, hself]
  · by_cases hmine : s.lock account' = some t
    · rw [ledger_of_held hmine, ledger_of_held ((hlock account' ha).trans hmine), hthread,
        Function.update_self, hbalance, hme]
    · exact ledger_frame hl hp hthread (fun account _ => congrFun hbalance account)
        (hlock account' ha) hmine

/-- A step that only takes or releases the lock of one account keeps everyone's place. -/
theorem Placed.relocked (hl : LocksOk accountId s) (hp : Placed accountId initial h s order)
    {th : Thread ι} (hthread : s'.thread = Function.update s.thread t th) (he : e.thread = t)
    (hbalance : s'.balance = s.balance) {account : ι}
    (hlock : ∀ account', account' ≠ account → s'.lock account' = s.lock account')
    (hself : s'.ledger account = s.ledger account)
    (hphase : th.phase.ledger s.balance = (s.thread t).phase.ledger s.balance)
    (hme : th.phase.Placed accountId s.balance (opsOf t (h ++ [e])) (resultsOf t (h ++ [e]))
      (entriesOf t order)) : Placed accountId initial (h ++ [e]) s' order := by
  have hledger : s'.ledger = s.ledger := ledger_relock hl hp hthread hbalance hlock hself hphase
  refine hp.of_update hl hthread he (fun _ _ => rfl) (fun account _ => congrFun hbalance account)
    ?_ ?_ ?_
  · rw [hledger]
    exact hp.serial
  · rw [hbalance]
    exact hp.nonneg
  · rw [hbalance]
    exact hme

/-- A thread begins a call. -/
theorem Placed.called (hl : LocksOk accountId s) (hp : Placed accountId initial h s order)
    {op : Op ι} {next : Result → Program ι} (hthread : s.thread t = ⟨.call op next, .idle⟩) :
    Placed accountId initial (h ++ [.called t op])
      (s.goOn t [] (op.call accountId).locks (op.call accountId).body) order := by
  have hphase : (s.thread t).phase = .idle := by rw [hthread]
  have hledger : (s.goOn t [] (op.call accountId).locks (op.call accountId).body).ledger =
      s.ledger := by
    refine ledger_move hl hp rfl rfl (fun _ _ => rfl) fun account hmem => ?_
    rw [hphase] at hmem
    exact absurd hmem List.not_mem_nil
  have hme := hp.thread t
  rw [hphase] at hme
  obtain ⟨hmade, hdone⟩ := hme
  refine hp.of_update (t := t) hl rfl rfl (fun _ _ => rfl) (fun _ _ => rfl)
    (by rw [hledger]; exact hp.serial) hp.nonneg ?_
  obtain ⟨account, toLock, hlocks⟩ := List.exists_cons_of_ne_nil (locks_ne_nil op)
  show Phase.Placed accountId s.balance _ _ _ (.running [] (op.call accountId).locks _)
  rw [hlocks, opsOf_called, resultsOf_of_none rfl]
  exact ⟨op, by rw [hmade], hdone, rfl, hlocks.symm⟩

/-- A lock that is not the last one. -/
theorem Placed.acquired (hl : LocksOk accountId s) (hp : Placed accountId initial h s order)
    {held toLock : List ι} {account next : ι} {body : Body ι}
    (hphase : (s.thread t).phase = .running held (account :: next :: toLock) body)
    (hfree : s.lock account = none) :
    Placed accountId initial (h ++ [.acquired t account])
      ({ s with lock := Function.update s.lock account (some t) }.goOn t (account :: held)
        (next :: toLock) body) order := by
  generalize hs' : ({ s with lock := Function.update s.lock account (some t) }.goOn t
    (account :: held) (next :: toLock) body) = s'
  have hthread : s'.thread = Function.update s.thread t
      ⟨(s.thread t).program, .running (account :: held) (next :: toLock) body⟩ := by
    rw [← hs']
    rfl
  have hnow : s'.lock account = some t := by
    rw [← hs']
    exact Function.update_self _ _ _
  have hme := hp.thread t
  rw [hphase] at hme
  obtain ⟨op, hmade, hdone, hbody, hlocks⟩ := hme
  refine hp.relocked hl hthread rfl (by rw [← hs']; rfl) (fun account' (ha : _ ≠ account) => ?_) ?_
    (by rw [hphase]; rfl) ?_
  · rw [← hs']
    exact Function.update_of_ne ha _ _
  · rw [ledger_of_free hfree, ledger_of_held hnow, hthread, Function.update_self, ← hs']
    rfl
  · rw [opsOf_of_none rfl, resultsOf_of_none rfl]
    refine ⟨op, hmade, hdone, hbody, ?_⟩
    rw [List.reverse_cons, List.append_assoc]
    exact hlocks

/-- **The last lock.**  The call takes its place in the order. -/
theorem Placed.acquired_last (hl : LocksOk accountId s) (hp : Placed accountId initial h s order)
    {held : List ι} {account : ι} {body : Body ι}
    (hphase : (s.thread t).phase = .running held [account] body)
    (hfree : s.lock account = none) :
    ∃ entry, Placed accountId initial (h ++ [.acquired t account])
      ({ s with lock := Function.update s.lock account (some t) }.goOn t (account :: held)
        [] body) (order ++ [entry]) := by
  have hme := hp.thread t
  rw [hphase] at hme
  obtain ⟨op, hmade, hdone, rfl, hlocks⟩ := hme
  generalize hs' : ({ s with lock := Function.update s.lock account (some t) }.goOn t
    (account :: held) [] (op.call accountId).body) = s'
  have hthread : s'.thread = Function.update s.thread t
      ⟨(s.thread t).program, .running (account :: held) [] (op.call accountId).body⟩ := by
    rw [← hs']
    rfl
  have hwithin : (op.call accountId).body.Within (account :: held) := by
    refine (within_call accountId op).mono fun account' hmem' => ?_
    simpa [← hlocks, or_comm] using hmem'
  -- up to now the ledger is not ahead of the accounts that the thread has locked
  have hbefore : ∀ account' ∈ account :: held, s.ledger account' = s.balance account' := by
    intro account' hmem'
    rcases List.mem_cons.mp hmem' with rfl | hheld
    · exact ledger_of_free hfree
    · rw [ledger_of_held ((hl.holder_iff account' t).mpr (by rw [hphase]; exact hheld)), hphase]
      rfl
  obtain ⟨hresult, hafter⟩ := exec_congr hwithin hbefore
  have hledger : s'.ledger = (op.onLedger accountId s.ledger).2 := by
    rw [← exec_call]
    funext account'
    by_cases hmem' : account' ∈ account :: held
    · have hnow : s'.lock account' = some t := by
        rw [← hs']
        show Function.update s.lock account (some t) account' = some t
        by_cases ha : account' = account
        · rw [ha, Function.update_self]
        · rw [Function.update_of_ne ha, hl.holder_iff, hphase]
          exact (List.mem_cons.mp hmem').resolve_left ha
      rw [ledger_of_held hnow, hthread, Function.update_self, hafter account' hmem', ← hs']
      rfl
    · rw [exec_of_not_mem hwithin hmem']
      obtain ⟨ha, hnot⟩ := not_or.mp (List.mem_cons.not.mp hmem')
      refine ledger_frame hl hp hthread (fun _ _ => by rw [← hs']; rfl) ?_ ?_
      · rw [← hs']
        exact Function.update_of_ne ha _ _
      · rw [Ne, hl.holder_iff, hphase]
        exact hnot
  refine ⟨⟨t, op, (op.onLedger accountId s.ledger).1⟩, ?_⟩
  refine hp.of_update hl hthread rfl (fun u hu => entriesOf_of_ne (Ne.symm hu))
    (fun _ _ => by rw [← hs']; rfl) ?_ (by rw [← hs']; exact hp.nonneg) ?_
  · rw [hledger]
    exact hp.serial.snoc (a := (t, op)) trivial rfl
  · rw [opsOf_of_none rfl, resultsOf_of_none rfl, entriesOf_self (t := t) rfl, ← exec_call]
    refine ⟨?_, ?_, hwithin, ?_⟩
    · rw [List.map_append, ← hmade]
      rfl
    · rw [List.map_append, hdone, hresult, ← hs']
      rfl
    · rw [← hs']
      exact safe_call op hp.nonneg

/-- A thread with all its locks reads. -/
theorem Placed.hasRead (hl : LocksOk accountId s) (hp : Placed accountId initial h s order)
    {held : List ι} {account : ι} {next : ℤ → Body ι}
    (hphase : (s.thread t).phase = .running held [] (.read account next)) :
    Placed accountId initial (h ++ [.hasRead t account (s.balance account)])
      (s.goOn t held [] (next (s.balance account))) order := by
  have hledger : (s.goOn t held [] (next (s.balance account))).ledger = s.ledger := by
    refine ledger_move hl hp rfl rfl (fun _ _ => rfl) fun account' _ => ?_
    rw [hphase]
    rfl
  have hme := hp.thread t
  rw [hphase] at hme
  obtain ⟨hmade, hdone, hwithin, hsafe⟩ := hme
  refine hp.of_update (t := t) hl rfl rfl (fun _ _ => rfl) (fun _ _ => rfl)
    (by rw [hledger]; exact hp.serial) hp.nonneg ?_
  rw [opsOf_of_none rfl, resultsOf_of_none rfl]
  refine ⟨hmade, hdone, ?_, hsafe⟩
  cases hwithin with
  | read _ hnext => exact hnext _

/-- A thread with all its locks writes, which the ledger has done already. -/
theorem Placed.wrote (hl : LocksOk accountId s) (hp : Placed accountId initial h s order)
    {held : List ι} {account : ι} {balance : ℤ} {next : Body ι}
    (hphase : (s.thread t).phase = .running held [] (.write account balance next)) :
    Placed accountId initial (h ++ [.wrote t account balance])
      ({ s with balance := Function.update s.balance account balance }.goOn t held [] next)
      order := by
  have hme := hp.thread t
  rw [hphase] at hme
  obtain ⟨hmade, hdone, hwithin, hbalance, -, hsafe⟩ := hme
  obtain ⟨hmem, hnext⟩ : account ∈ held ∧ next.Within held := by
    cases hwithin with
    | write hmem hnext => exact ⟨hmem, hnext⟩
  -- the account is locked by this thread and by no other
  have hmine : s.lock account = some t :=
    (hl.holder_iff account t).mpr (by rw [hphase]; exact hmem)
  have hsame : ∀ account', s.lock account' ≠ some t →
      Function.update s.balance account balance account' = s.balance account' := by
    intro account' hnot
    refine Function.update_of_ne ?_ _ _
    rintro rfl
    exact hnot hmine
  have hledger : ({ s with balance := Function.update s.balance account balance }.goOn t held []
      next).ledger = s.ledger := by
    refine ledger_move hl hp rfl rfl hsame fun account' _ => ?_
    rw [hphase]
    rfl
  refine hp.of_update (t := t) hl rfl rfl (fun _ _ => rfl) hsame
    (by rw [hledger]; exact hp.serial) ?_ ?_
  · exact (Function.forall_update_iff s.balance fun _ balance => 0 ≤ balance).mpr
      ⟨hbalance, fun account' _ => hp.nonneg account'⟩
  · rw [opsOf_of_none rfl, resultsOf_of_none rfl]
    exact ⟨hmade, hdone, hnext, hsafe⟩

/-- A thread gives a lock back. -/
theorem Placed.released (hl : LocksOk accountId s) (hp : Placed accountId initial h s order)
    {held : List ι} {account : ι} {result : Result}
    (hphase : (s.thread t).phase = .running (account :: held) [] (.ends result)) :
    Placed accountId initial (h ++ [.released t account])
      ({ s with lock := Function.update s.lock account none }.goOn t held [] (.ends result))
      order := by
  generalize hs' : ({ s with lock := Function.update s.lock account none }.goOn t held []
    (.ends result)) = s'
  have hthread : s'.thread = Function.update s.thread t
      ⟨(s.thread t).program, .running held [] (.ends result)⟩ := by
    rw [← hs']
    rfl
  have hmine : s.lock account = some t :=
    (hl.holder_iff account t).mpr (by rw [hphase]; exact List.mem_cons_self)
  have hnow : s'.lock account = none := by
    rw [← hs']
    exact Function.update_self _ _ _
  have hme := hp.thread t
  rw [hphase] at hme
  obtain ⟨hmade, hdone, -, -⟩ := hme
  refine hp.relocked hl hthread rfl (by rw [← hs']; rfl) (fun account' (ha : _ ≠ account) => ?_) ?_
    (by rw [hphase]; rfl) ?_
  · rw [← hs']
    exact Function.update_of_ne ha _ _
  · rw [ledger_of_free hnow, ledger_of_held hmine, hphase, ← hs']
    rfl
  · rw [opsOf_of_none rfl, resultsOf_of_none rfl]
    exact ⟨hmade, hdone, .ends, trivial⟩

/-- A thread ends its call. -/
theorem Placed.ended (hl : LocksOk accountId s) (hp : Placed accountId initial h s order)
    {op : Op ι} {next : Result → Program ι} {result : Result}
    (hthread : s.thread t = ⟨.call op next, .running [] [] (.ends result)⟩) :
    Placed accountId initial (h ++ [.ended t result]) (s.setThread t ⟨next result, .idle⟩)
      order := by
  have hphase : (s.thread t).phase = .running [] [] (.ends result) := by rw [hthread]
  have hledger : (s.setThread t ⟨next result, .idle⟩).ledger = s.ledger := by
    refine ledger_move hl hp rfl rfl (fun _ _ => rfl) fun account' hmem => ?_
    rw [hphase] at hmem
    exact absurd hmem List.not_mem_nil
  have hme := hp.thread t
  rw [hphase] at hme
  obtain ⟨hmade, hdone, -, -⟩ := hme
  refine hp.of_update (t := t) hl rfl rfl (fun _ _ => rfl) (fun _ _ => rfl)
    (by rw [hledger]; exact hp.serial) hp.nonneg ?_
  rw [opsOf_of_none rfl, resultsOf_ended]
  exact ⟨hmade, hdone⟩

/-- **The step lemma** for the order. -/
theorem Placed.effect (hl : LocksOk accountId s) (hp : Placed accountId initial h s order)
    (heffect : Effect accountId s t e s') :
    ∃ order', Placed accountId initial (h ++ [e]) s' order' := by
  cases heffect with
  | called op next hthread => exact ⟨order, hp.called hl hthread⟩
  | acquired held account toLock body hphase hfree =>
      cases toLock with
      | nil =>
          obtain ⟨entry, hp'⟩ := hp.acquired_last hl hphase hfree
          exact ⟨order ++ [entry], hp'⟩
      | cons next toLock => exact ⟨order, hp.acquired hl hphase hfree⟩
  | hasRead held account next hphase => exact ⟨order, hp.hasRead hl hphase⟩
  | wrote held account balance next hphase => exact ⟨order, hp.wrote hl hphase⟩
  | released account held result hphase => exact ⟨order, hp.released hl hphase⟩
  | ended op next result hthread => exact ⟨order, hp.ended hl hthread⟩

/-- At the start the order is empty. -/
theorem Placed.start {program : τ → Program ι} (hnonneg : ∀ account, 0 ≤ initial account) :
    Placed accountId initial [] (Bank.start initial program) [] :=
  ⟨.nil, hnonneg, fun _ => ⟨rfl, rfl⟩⟩

/-! ## Calls that raise -/

omit [DecidableEq ι] in
/-- Who has written returns: only the thread that moves has to be looked at. -/
theorem returns_of_update (hw : ∀ u, written u h ≠ [] → (s.thread u).phase.Returns)
    {th : Thread ι} (hthread : s'.thread = Function.update s.thread t th) (he : e.thread = t)
    (hme : written t (h ++ [e]) ≠ [] → th.phase.Returns) :
    ∀ u, written u (h ++ [e]) ≠ [] → (s'.thread u).phase.Returns := by
  intro u hne
  rw [hthread]
  by_cases hu : u = t
  · rw [hu] at hne
    rw [hu, Function.update_self]
    exact hme hne
  · rw [written_of_ne fun heq => hu (heq.symm.trans he)] at hne
    rw [Function.update_of_ne hu]
    exact hw u hne

/-- A call that has written goes on so that it will return. -/
theorem returns_effect (hp : Placed accountId initial h s order)
    (hw : ∀ u, written u h ≠ [] → (s.thread u).phase.Returns)
    (heffect : Effect accountId s t e s') :
    ∀ u, written u (h ++ [e]) ≠ [] → (s'.thread u).phase.Returns := by
  have hreturns := hw t
  cases heffect with
  | called op next hthread =>
      refine returns_of_update hw rfl rfl fun hne => absurd ?_ hne
      simp [written, List.foldl_append]
  | acquired held account toLock body hphase hfree =>
      rw [hphase] at hreturns
      refine returns_of_update hw rfl rfl fun hne => hreturns ?_
      simpa [written, List.foldl_append] using hne
  | hasRead held account next hphase =>
      rw [hphase] at hreturns
      refine returns_of_update hw rfl rfl fun hne => ?_
      have hbody : (Body.read account next).Returns :=
        hreturns (by simpa [written, List.foldl_append] using hne)
      cases hbody with
      | read hnext => exact hnext _
  | wrote held account balance next hphase =>
      -- a safe body returns once it writes
      have hme := hp.thread t
      rw [hphase] at hme
      exact returns_of_update hw rfl rfl fun _ => hme.2.2.2.2.1
  | released account held result hphase =>
      rw [hphase] at hreturns
      refine returns_of_update hw rfl rfl fun hne => hreturns ?_
      simpa [written, List.foldl_append] using hne
  | ended op next result hthread => exact returns_of_update hw rfl rfl fun _ => trivial

omit [DecidableEq ι] in
/-- A call that raises an error has written nothing. -/
theorem written_of_raised (hw : ∀ u, written u h ≠ [] → (s.thread u).phase.Returns)
    {held : List ι} {message : String}
    (hphase : (s.thread t).phase = .running held [] (.ends (.raised message))) :
    written t h = [] := by
  by_contra hne
  have hreturns := hw t hne
  rw [hphase] at hreturns
  cases hreturns

/-! ## Every run -/

/-- The calls of a history, as far as they have taken their places, in one order, and the plain map
after them. -/
structure Linearizes (accountId : ι → String) (initial : ι → ℤ) (h : List (Event τ ι))
    (s : Bank τ ι) (order : List (Entry τ ι)) (m : ι → ℤ) : Prop where
  /-- Results and map are those of the calls made one at a time. -/
  serial : Run (ledgerStep accountId) anyStep initial order m
  /-- Each thread's calls are in the order in which it makes them. -/
  ops : ∀ t, (entriesOf t order).map Entry.op <+: opsOf t h
  /-- The calls that have ended did so with the results in the order. -/
  results : ∀ t, resultsOf t h <+: (entriesOf t order).map Entry.result
  /-- Between two calls of a thread, all its calls have their places. -/
  idle : ∀ t, (s.thread t).phase = .idle →
    (entriesOf t order).map Entry.op = opsOf t h ∧
      (entriesOf t order).map Entry.result = resultsOf t h
  /-- The balance of an account that nobody has locked is that of the map. -/
  free : ∀ account, s.lock account = none → s.balance account = m account
  final : (∀ t, (s.thread t).phase = .idle) → s.balance = m
  /-- The total changes by successful deposits and withdrawals. -/
  total : ∀ accounts : Finset ι,
    (∀ entry ∈ order, ∀ account ∈ (entry.op.call accountId).locks, account ∈ accounts) →
      ∑ account ∈ accounts, m account =
        ∑ account ∈ accounts, initial account +
          (order.map fun entry => entry.op.gain entry.result).sum

omit [DecidableEq τ] in
/-- Transfers move money within the accounts. -/
theorem sum_ledger {m : ι → ℤ} (hserial : Run (ledgerStep accountId) anyStep initial order m)
    (accounts : Finset ι)
    (hmem : ∀ entry ∈ order, ∀ account ∈ (entry.op.call accountId).locks, account ∈ accounts) :
    ∑ account ∈ accounts, m account =
      ∑ account ∈ accounts, initial account +
        (order.map fun entry => entry.op.gain entry.result).sum := by
  induction hserial with
  | nil => simp
  | @snoc order m m' c entry _ _ hs ih =>
      cases hs
      have hlast := hmem _ (List.mem_append_right _ (List.mem_singleton_self _))
      rw [sum_onLedger c.2 hlast, ih fun entry h => hmem entry (List.mem_append_left _ h),
        List.map_append, List.sum_append, List.map_singleton, List.sum_singleton, add_assoc]

/-- The order of the calls is the one that is claimed. -/
theorem Placed.linearizes (hl : LocksOk accountId s) (hp : Placed accountId initial h s order) :
    Linearizes accountId initial h s order s.ledger := by
  have hidle : ∀ t, (s.thread t).phase = .idle →
      (entriesOf t order).map Entry.op = opsOf t h ∧
        (entriesOf t order).map Entry.result = resultsOf t h := by
    intro t hphase
    have hme := hp.thread t
    rw [hphase] at hme
    exact hme
  refine ⟨hp.serial, fun t => ?_, fun t => ?_, hidle, fun account hfree =>
    (ledger_of_free hfree).symm, fun hall => ?_, sum_ledger hp.serial⟩
  · have hme := hp.thread t
    cases hphase : (s.thread t).phase with
    | idle => exact (hidle t hphase).1 ▸ List.prefix_rfl
    | running held toLock body =>
        rw [hphase] at hme
        cases toLock with
        | nil => exact hme.1 ▸ List.prefix_rfl
        | cons account toLock =>
            obtain ⟨op, hmade, -⟩ := hme
            exact hmade ▸ List.prefix_append _ _
  · have hme := hp.thread t
    cases hphase : (s.thread t).phase with
    | idle => exact (hidle t hphase).2 ▸ List.prefix_rfl
    | running held toLock body =>
        rw [hphase] at hme
        cases toLock with
        | nil => exact hme.2.1 ▸ List.prefix_append _ _
        | cons account toLock =>
            obtain ⟨op, -, hdone, -⟩ := hme
            exact hdone ▸ List.prefix_rfl
  · funext account
    refine (ledger_of_free ?_).symm
    by_contra hne
    obtain ⟨t, hheld⟩ := Option.ne_none_iff_exists'.mp hne
    have hmem := (hl.holder_iff account t).mp hheld
    rw [hall t] at hmem
    exact List.not_mem_nil hmem

/-- **The accounts are one ledger.**  In every reachable state the calls have the results, and leave
the balances, of the same calls made one at a time on a plain map, in an order that keeps that of
each thread; a call that raises an error has written nothing; and no balance is negative. -/
theorem run_linearizable (hid : Function.Injective accountId)
    (hnonneg : ∀ account, 0 ≤ initial account) {program : τ → Program ι}
    (hr : Run (step accountId) anyStep (Bank.start initial program) h s) :
    (∃ order m, Linearizes accountId initial h s order m) ∧
      (∀ h₁ t message, h₁ ++ [.ended t (.raised message)] <+: h → written t h₁ = []) ∧
      ∀ account, 0 ≤ s.balance account := by
  have hinv : LocksOk accountId s ∧ (∃ order, Placed accountId initial h s order) ∧
      (∀ t, written t h ≠ [] → (s.thread t).phase.Returns) ∧
      ∀ h₁ t message, h₁ ++ [.ended t (.raised message)] <+: h → written t h₁ = [] := by
    refine Run.invariant (fun h s => LocksOk accountId s ∧
      (∃ order, Placed accountId initial h s order) ∧
      (∀ t, written t h ≠ [] → (s.thread t).phase.Returns) ∧
      ∀ h₁ t message, h₁ ++ [.ended t (.raised message)] <+: h → written t h₁ = [])
      ⟨.start initial program, ⟨[], .start hnonneg⟩, fun _ hne => absurd rfl hne, ?_⟩ ?_ hr
    · intro h₁ t message hpre
      have hnil := List.prefix_nil.mp hpre
      exact absurd hnil (List.append_ne_nil_of_right_ne_nil h₁ (List.cons_ne_nil _ _))
    · rintro h s t e s' ⟨hl, ⟨order, hp⟩, hw, hraised⟩ - hs
      have heffect := effect_step hs
      refine ⟨hl.effect hid heffect, hp.effect hl heffect, returns_effect hp hw heffect, ?_⟩
      intro h₁ u message hpre
      rcases List.prefix_concat_iff.mp hpre with heq | hpre
      · obtain ⟨rfl, hlast⟩ := List.append_inj' heq rfl
        obtain rfl := List.singleton_inj.mp hlast
        cases heffect with
        | ended op next result hthread =>
            exact written_of_raised (t := t) hw (by rw [hthread])
      · exact hraised h₁ u message hpre
  obtain ⟨hl, ⟨order, hp⟩, -, hraised⟩ := hinv
  exact ⟨⟨order, s.ledger, hp.linearizes hl⟩, hraised, hp.nonneg⟩

/-- The transfers of `twoTransfers`: the second one has its locks first, and the first one, which
started first, raises an error. -/
theorem run_linearizable_twoTransfers : ∃ (h : List (Event Bool Bool)) (s : Bank Bool Bool),
    Run (step fun account => if account then "A" else "B") anyStep
      (Bank.start (fun _ => 5) twoTransfers) h s ∧
    resultsOf true h =
      [.raised "Insufficient funds in A: balance=7, transfer=9", .returned none] ∧
    (∃ order m,
      Linearizes (fun account => if account then "A" else "B") (fun _ => 5) h s order m) ∧
    ∀ account, 0 ≤ s.balance account := by
  have hid : Function.Injective fun account : Bool => if account then "A" else "B" := by decide
  have hr := run_of_replay (step fun account : Bool => if account then "A" else "B")
    (s := Bank.start (fun _ => 5) twoTransfers)
    [true, false, false, false, false, false, false, false, false, false, false, false, true, true,
      true, true, true, true, true, true, true, true, true, true, true] rfl
  obtain ⟨hlinear, -, hnonneg⟩ := run_linearizable hid (fun _ => by decide) hr
  exact ⟨_, _, hr, by decide, hlinear, hnonneg⟩

end Bank

end Lock
