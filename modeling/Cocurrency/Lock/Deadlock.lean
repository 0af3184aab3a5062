/-
# No deadlock (`python/shared_memory_lock/bank_account.py`)

`transfer` takes its two locks in the order of the account ids.  So every thread that waits for a
lock holds only locks of accounts with smaller ids (`LocksOk`), and threads never wait for each
other in a cycle (`run_noDeadlock`).
-/
import Cocurrency.Lib.Run
import Cocurrency.Lib.WaitFor
import Cocurrency.Lock.BankAccount
import Mathlib.Data.List.Nodup

namespace Lock

/-! ## What a step does -/

namespace Bank

variable {τ ι : Type*} [DecidableEq τ] [DecidableEq ι] (accountId : ι → String)

/-- What a step of thread `t` does. -/
inductive Effect (s : Bank τ ι) (t : τ) : Event τ ι → Bank τ ι → Prop
  | called (op : Op ι) (next : Result → Program ι) : s.thread t = ⟨.call op next, .idle⟩ →
      Effect s t (.called t op) (s.goOn t [] (op.call accountId).locks (op.call accountId).body)
  | acquired (held : List ι) (account : ι) (toLock : List ι) (body : Body ι) :
      (s.thread t).phase = .running held (account :: toLock) body → s.lock account = none →
      Effect s t (.acquired t account)
        ({ s with lock := Function.update s.lock account (some t) }.goOn t (account :: held) toLock
          body)
  | hasRead (held : List ι) (account : ι) (next : ℤ → Body ι) :
      (s.thread t).phase = .running held [] (.read account next) →
      Effect s t (.hasRead t account (s.balance account))
        (s.goOn t held [] (next (s.balance account)))
  | wrote (held : List ι) (account : ι) (balance : ℤ) (next : Body ι) :
      (s.thread t).phase = .running held [] (.write account balance next) →
      Effect s t (.wrote t account balance)
        ({ s with balance := Function.update s.balance account balance }.goOn t held [] next)
  | released (account : ι) (held : List ι) (result : Result) :
      (s.thread t).phase = .running (account :: held) [] (.ends result) →
      Effect s t (.released t account)
        ({ s with lock := Function.update s.lock account none }.goOn t held [] (.ends result))
  | ended (op : Op ι) (next : Result → Program ι) (result : Result) :
      s.thread t = ⟨.call op next, .running [] [] (.ends result)⟩ →
      Effect s t (.ended t result) (s.setThread t ⟨next result, .idle⟩)

variable {accountId} {s s' : Bank τ ι} {t : τ} {e : Event τ ι}

theorem effect_step (h : s.step accountId t = some (e, s')) : Effect accountId s t e s' := by
  unfold step at h
  split at h
  · next hphase =>
    split at h
    · cases h
    · next op next hprogram =>
      cases h
      refine .called op next ?_
      rw [← hprogram, ← hphase]
  · next held account toLock body hphase =>
    split at h
    · next hfree =>
      cases h
      exact .acquired held account toLock body hphase hfree
    · cases h
  · next held account next hphase =>
    cases h
    exact .hasRead held account next hphase
  · next held account balance next hphase =>
    cases h
    exact .wrote held account balance next hphase
  · next account held result hphase =>
    cases h
    exact .released account held result hphase
  · next result hphase =>
    split at h
    · cases h
    · next op next hprogram =>
      cases h
      refine .ended op next result ?_
      rw [← hprogram, ← hphase]

end Bank

/-! ## Locks and threads -/

section Threads

variable {ι : Type*}

/-- The locks that a thread holds, from the innermost one. -/
def Phase.held : Phase ι → List ι
  | .idle => []
  | .running held _ _ => held

/-- All locks of its call. -/
def Phase.locks : Phase ι → List ι
  | .idle => []
  | .running held toLock _ => held.reverse ++ toLock

/-- The lock that it has to acquire next. -/
def Phase.wants : Phase ι → Option ι
  | .running _ (account :: _) _ => some account
  | _ => none

/-- All calls of the thread have ended. -/
def Thread.Finished (th : Thread ι) : Prop := th.phase = .idle ∧ th.program = .finished

/-- The locks of a call are acquired in the order of the account ids. -/
theorem pairwise_locks {accountId : ι → String} (hid : Function.Injective accountId) (op : Op ι) :
    (op.call accountId).locks.Pairwise fun a b => accountId a < accountId b := by
  cases op with
  | deposit account amount => exact List.pairwise_singleton _ _
  | withdraw account amount => exact List.pairwise_singleton _ _
  | getBalance account => exact List.pairwise_singleton _ _
  | transfer fromAccount toAccount amount ne =>
      show (inOrder accountId fromAccount toAccount).Pairwise fun a b => accountId a < accountId b
      rw [inOrder]
      split
      · next hle => exact List.pairwise_pair.mpr (lt_of_le_of_ne hle (hid.ne ne))
      · next hnot => exact List.pairwise_pair.mpr (lt_of_not_ge hnot)

end Threads

namespace Bank

variable {τ ι : Type*}

/-- `t` waits for a lock that `u` holds. -/
def WaitsFor (s : Bank τ ι) : τ → τ → Prop :=
  WaitFor.WaitsFor s.lock fun t => (s.thread t).phase.wants

/-- The locks and the threads agree on who holds what; every thread acquires the locks of its call
in the order of the account ids; and no more than finitely many locks are held. -/
structure LocksOk (accountId : ι → String) (s : Bank τ ι) : Prop where
  holder_iff : ∀ account t, s.lock account = some t ↔ account ∈ (s.thread t).phase.held
  sorted : ∀ t, (s.thread t).phase.locks.Pairwise fun a b => accountId a < accountId b
  running : ∀ t, (s.thread t).phase ≠ .idle → (s.thread t).program ≠ .finished
  finite : {account | s.lock account ≠ none}.Finite

variable {accountId : ι → String} {s s' : Bank τ ι} {t : τ} {e : Event τ ι}

theorem LocksOk.start (initial : ι → ℤ) (program : τ → Program ι) :
    LocksOk accountId (Bank.start initial program) := by
  refine ⟨fun account t => iff_of_false nofun List.not_mem_nil, fun t => List.Pairwise.nil,
    fun t h => absurd rfl h, ?_⟩
  have hempty : {account | (Bank.start initial program : Bank τ ι).lock account ≠ none} = ∅ :=
    Set.eq_empty_iff_forall_notMem.mpr fun account h => h rfl
  rw [hempty]
  exact Set.finite_empty

/-- What a thread holds ranks below what it waits for. -/
theorem LocksOk.ordered (hl : LocksOk accountId s) :
    WaitFor.Ordered s.lock (fun t => (s.thread t).phase.wants) accountId := by
  intro t account account' hwants hheld
  have hwants : (s.thread t).phase.wants = some account := hwants
  have hmem := (hl.holder_iff account' t).mp hheld
  have hsorted := hl.sorted t
  cases hphase : (s.thread t).phase with
  | idle =>
      rw [hphase] at hwants
      cases hwants
  | running held toLock body =>
      rw [hphase] at hwants hmem hsorted
      cases toLock with
      | nil => cases hwants
      | cons first toLock =>
          cases hwants
          exact (List.pairwise_append.mp hsorted).2.2 account' (List.mem_reverse.mpr hmem) account
            List.mem_cons_self

/-- A thread that has finished holds no lock. -/
theorem LocksOk.not_finished (hl : LocksOk accountId s) {account : ι}
    (hheld : s.lock account = some t) : ¬ (s.thread t).Finished := by
  rintro ⟨hidle, -⟩
  have hmem := (hl.holder_iff account t).mp hheld
  rw [hidle] at hmem
  exact List.not_mem_nil hmem

variable [DecidableEq τ]

/-- One thread has moved. -/
theorem LocksOk.of_update (hl : LocksOk accountId s) {th : Thread ι}
    (hthread : s'.thread = Function.update s.thread t th)
    (hholder : ∀ account u, s'.lock account = some u ↔ account ∈ (s'.thread u).phase.held)
    (hsorted : th.phase.locks.Pairwise fun a b => accountId a < accountId b)
    (hrunning : th.phase ≠ .idle → th.program ≠ .finished)
    (hfinite : {account | s'.lock account ≠ none}.Finite) : LocksOk accountId s' := by
  refine ⟨hholder, ?_, ?_, hfinite⟩
  · rw [hthread]
    exact (Function.forall_update_iff s.thread fun _ th =>
      th.phase.locks.Pairwise fun a b => accountId a < accountId b).mpr
        ⟨hsorted, fun u _ => hl.sorted u⟩
  · rw [hthread]
    exact (Function.forall_update_iff s.thread fun _ th =>
      th.phase ≠ .idle → th.program ≠ .finished).mpr ⟨hrunning, fun u _ => hl.running u⟩

/-- A thread goes on, and holds what it has held. -/
theorem LocksOk.move (hl : LocksOk accountId s) {th : Thread ι} (hlock : s'.lock = s.lock)
    (hthread : s'.thread = Function.update s.thread t th)
    (hheld : th.phase.held = (s.thread t).phase.held)
    (hsorted : th.phase.locks.Pairwise fun a b => accountId a < accountId b)
    (hrunning : th.phase ≠ .idle → th.program ≠ .finished) : LocksOk accountId s' := by
  refine hl.of_update hthread (fun account u => ?_) hsorted hrunning
    (by rw [hlock]; exact hl.finite)
  rw [hlock, hl.holder_iff, hthread]
  by_cases hu : u = t
  · rw [hu, Function.update_self, hheld]
  · rw [Function.update_of_ne hu]

variable [DecidableEq ι]

theorem LocksOk.acquired (hl : LocksOk accountId s) {held toLock : List ι} {account : ι}
    {body : Body ι} (hphase : (s.thread t).phase = .running held (account :: toLock) body)
    (hfree : s.lock account = none) :
    LocksOk accountId ({ s with lock := Function.update s.lock account (some t) }.goOn t
      (account :: held) toLock body) := by
  have hnobody : ∀ u, account ∉ (s.thread u).phase.held := fun u hmem => by
    rw [← hl.holder_iff, hfree] at hmem
    cases hmem
  have hheld : (s.thread t).phase.held = held := by rw [hphase]; rfl
  have hsorted := hl.sorted t
  rw [hphase] at hsorted
  refine hl.of_update (t := t) rfl (fun account' u => ?_) ?_ ?_ ?_
  · show Function.update s.lock account (some t) account' = some u ↔
      account' ∈ (Function.update s.thread t _ u).phase.held
    by_cases hu : u = t
    · rw [hu, Function.update_self]
      show _ ↔ account' ∈ account :: held
      rw [List.mem_cons]
      by_cases ha : account' = account
      · rw [ha, Function.update_self]
        exact iff_of_true rfl (Or.inl rfl)
      · rw [Function.update_of_ne ha, hl.holder_iff, hheld]
        exact (or_iff_right ha).symm
    · rw [Function.update_of_ne hu]
      by_cases ha : account' = account
      · rw [ha, Function.update_self]
        exact iff_of_false (fun h => hu (Option.some.inj h).symm) (hnobody u)
      · rw [Function.update_of_ne ha, hl.holder_iff]
  · -- the lock moves from the front of those to acquire to those held
    show ((account :: held).reverse ++ toLock).Pairwise fun a b => accountId a < accountId b
    rw [List.reverse_cons, List.append_assoc]
    exact hsorted
  · intro _
    exact hl.running t (by rw [hphase]; exact nofun)
  · refine (hl.finite.insert account).subset fun account' hmem => ?_
    by_cases ha : account' = account
    · exact Or.inl ha
    · refine Or.inr ?_
      have hlock : Function.update s.lock account (some t) account' ≠ none := hmem
      rw [Function.update_of_ne ha] at hlock
      exact hlock

theorem LocksOk.released (hl : LocksOk accountId s) {held : List ι} {account : ι} {result : Result}
    (hphase : (s.thread t).phase = .running (account :: held) [] (.ends result)) :
    LocksOk accountId ({ s with lock := Function.update s.lock account none }.goOn t held []
      (.ends result)) := by
  have hheld : (s.thread t).phase.held = account :: held := by rw [hphase]; rfl
  have hmine : s.lock account = some t := (hl.holder_iff account t).mpr (by
    rw [hheld]
    exact List.mem_cons_self)
  have hsorted :
      ((account :: held).reverse ++ []).Pairwise fun a b => accountId a < accountId b := by
    have hlocks := hl.sorted t
    rw [hphase] at hlocks
    exact hlocks
  rw [List.append_nil, List.reverse_cons, List.pairwise_append] at hsorted
  obtain ⟨hrest, -, hbelow⟩ := hsorted
  have hnot : account ∉ held := fun hmem =>
    lt_irrefl _ (hbelow account (List.mem_reverse.mpr hmem) account (List.mem_singleton_self _))
  refine hl.of_update (t := t) rfl (fun account' u => ?_) ?_ ?_ ?_
  · show Function.update s.lock account none account' = some u ↔
      account' ∈ (Function.update s.thread t _ u).phase.held
    by_cases hu : u = t
    · rw [hu, Function.update_self]
      show _ ↔ account' ∈ held
      by_cases ha : account' = account
      · rw [ha, Function.update_self]
        exact iff_of_false nofun hnot
      · rw [Function.update_of_ne ha, hl.holder_iff, hheld, List.mem_cons]
        exact or_iff_right ha
    · rw [Function.update_of_ne hu]
      by_cases ha : account' = account
      · rw [ha, Function.update_self, ← hl.holder_iff, hmine]
        exact iff_of_false nofun fun h => hu (Option.some.inj h).symm
      · rw [Function.update_of_ne ha, hl.holder_iff]
  · show (held.reverse ++ []).Pairwise fun a b => accountId a < accountId b
    rw [List.append_nil]
    exact hrest
  · intro _
    exact hl.running t (by rw [hphase]; exact nofun)
  · refine hl.finite.subset fun account' hmem => ?_
    have hlock : Function.update s.lock account none account' ≠ none := hmem
    by_cases ha : account' = account
    · rw [ha, Function.update_self] at hlock
      exact absurd rfl hlock
    · rw [Function.update_of_ne ha] at hlock
      exact hlock

theorem LocksOk.effect (hid : Function.Injective accountId) (hl : LocksOk accountId s)
    (heffect : Effect accountId s t e s') : LocksOk accountId s' := by
  have hsorted := hl.sorted t
  have hrunning := hl.running t
  cases heffect with
  | called op next hthread =>
      rw [hthread] at hrunning
      refine hl.move (t := t) rfl rfl (by rw [hthread]; rfl) (pairwise_locks hid op) fun _ => ?_
      show (s.thread t).program ≠ .finished
      rw [hthread]
      exact nofun
  | acquired held account toLock body hphase hfree => exact hl.acquired hphase hfree
  | hasRead held account next hphase =>
      rw [hphase] at hsorted hrunning
      exact hl.move (t := t) rfl rfl (by rw [hphase]; rfl) hsorted fun _ => hrunning nofun
  | wrote held account balance next hphase =>
      rw [hphase] at hsorted hrunning
      exact hl.move (t := t) rfl rfl (by rw [hphase]; rfl) hsorted fun _ => hrunning nofun
  | released account held result hphase => exact hl.released hphase
  | ended op next result hthread =>
      exact hl.move (t := t) rfl rfl (by rw [hthread]; rfl) List.Pairwise.nil
        fun h => absurd rfl h

theorem run_locksOk (hid : Function.Injective accountId) {initial : ι → ℤ}
    {program : τ → Program ι} {h : List (Event τ ι)}
    (hr : Run (step accountId) anyStep (Bank.start initial program) h s) : LocksOk accountId s :=
  Run.invariant (fun _ s => LocksOk accountId s) (.start initial program)
    (fun _ _ _ _ _ hl _ hs => hl.effect hid (effect_step hs)) hr

/-! ## Progress -/

/-- A thread that has not finished and does not wait for another can take a step. -/
theorem exists_step (hl : LocksOk accountId s) (hnot : ¬ (s.thread t).Finished)
    (hwaits : ∀ u, ¬ s.WaitsFor t u) : ∃ e s', s.step accountId t = some (e, s') := by
  have hrunning := hl.running t
  suffices henabled : s.step accountId t ≠ none by
    obtain ⟨⟨e, s'⟩, hstep⟩ := Option.ne_none_iff_exists'.mp henabled
    exact ⟨e, s', hstep⟩
  cases hphase : (s.thread t).phase with
  | idle =>
      cases hprogram : (s.thread t).program with
      | finished => exact absurd ⟨hphase, hprogram⟩ hnot
      | call op next => simp [step, hphase, hprogram]
  | running held toLock body =>
      rw [hphase] at hrunning
      cases toLock with
      | cons account toLock =>
          have hwants : (s.thread t).phase.wants = some account := by rw [hphase]; rfl
          cases hlock : s.lock account with
          | none => simp [step, hphase, hlock]
          | some u => exact absurd ⟨account, hwants, hlock⟩ (hwaits u)
      | nil =>
          cases body with
          | read account next => simp [step, hphase]
          | write account balance next => simp [step, hphase]
          | ends result =>
              cases held with
              | cons account held => simp [step, hphase]
              | nil =>
                  cases hprogram : (s.thread t).program with
                  | finished => exact absurd hprogram (hrunning nofun)
                  | call op next => simp [step, hphase, hprogram]

/-- **No deadlock.**  In every reachable state in which some thread has not finished, some thread
can take a step; and no threads wait for each other in a cycle. -/
theorem run_noDeadlock (hid : Function.Injective accountId) {initial : ι → ℤ}
    {program : τ → Program ι} {h : List (Event τ ι)}
    (hr : Run (step accountId) anyStep (Bank.start initial program) h s) :
    ((∃ t, ¬ (s.thread t).Finished) → ∃ t e s', s.step accountId t = some (e, s')) ∧
      ∀ t, ¬ Relation.TransGen s.WaitsFor t t := by
  have hl := run_locksOk hid hr
  refine ⟨?_, WaitFor.not_transGen_waitsFor hl.ordered⟩
  rintro ⟨t, hnot⟩
  by_cases hwaits : ∃ u, s.WaitsFor t u
  · obtain ⟨u, account, -, hheld⟩ := hwaits
    obtain ⟨account', v, hheld', hfree⟩ :=
      WaitFor.exists_holder_not_waiting hl.ordered hl.finite hheld
    exact ⟨v, exists_step hl (hl.not_finished hheld') hfree⟩
  · exact ⟨t, exists_step hl hnot fun u hu => hwaits ⟨u, hu⟩⟩

/-- One thread makes a transfer, which raises an error, and then a deposit; another one makes a
transfer the other way. -/
def twoTransfers : Bool → Program Bool
  | true => .call (.transfer true false 9 (by decide)) fun _ =>
      .call (.deposit false 1) fun _ => .finished
  | false => .call (.transfer false true 2 (by decide)) fun _ => .finished

/-- The second thread waits for the first account, which the first thread has locked. -/
theorem run_noDeadlock_twoTransfers : ∃ (h : List (Event Bool Bool)) (s : Bank Bool Bool),
    Run (step fun account => if account then "A" else "B") anyStep
      (Bank.start (fun _ => 5) twoTransfers) h s ∧
    s.WaitsFor false true ∧
    (∃ t e s', s.step (fun account => if account then "A" else "B") t = some (e, s')) ∧
    ∀ t, ¬ Relation.TransGen s.WaitsFor t t := by
  have hid : Function.Injective fun account : Bool => if account then "A" else "B" := by decide
  have hr := run_of_replay (step fun account : Bool => if account then "A" else "B")
    (s := Bank.start (fun _ => 5) twoTransfers) [true, true, false] rfl
  refine ⟨_, _, hr, ⟨true, rfl, rfl⟩, (run_noDeadlock hid hr).1 ⟨true, ?_⟩,
    (run_noDeadlock hid hr).2⟩
  rintro ⟨hidle, -⟩
  cases hidle

end Bank

end Lock
