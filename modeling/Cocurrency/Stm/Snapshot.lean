/-
# What a body sees while it runs (`python/stm/stm_model.py`)

`read_tvar` reads one TVar at a time, and nothing holds the accesses of an attempt against
each other before `validate`, which runs after the body.  A commit that falls between two
accesses of a body shows it one TVar from before and one from after (`not_snapshot`), and an
exception that the body raises on such a mixture leaves `atomically` without any `validate`.

The committed states are what the write sets of the commits so far make of the initial
values (`committedStore`); a commit counts from the beginning of its write loop, from where it
always completes.

* `run_installing` : when no thread is in the write loop of `commit`, the TVars hold the
  committed state;
* `run_snapshot` : every access finds a TVar of some committed state; if at a moment between
  commits the TVars that the attempt has read all have the versions it found, they are those
  of the one committed state of that moment, and so is what the body raises.
-/
import Cocurrency.Stm.Serial

namespace Stm

variable {θ ι V R P : Type}

/-! ## Committed states -/

/-- The commit whose write loop the event begins. -/
def commitPoint : Event θ ι V R P → Option (Commit ι V R P)
  | .commitStart _ p txn r => some ⟨p, r, txn.writeSet⟩
  | _ => none

section Committed

variable [DecidableEq ι]

/-- What the commits of the history `h` make of the initial values. -/
def committedStore (values : ι → V) (h : List (Event θ ι V R P)) : ι → TVar V :=
  (h.filterMap commitPoint).foldl (fun store c => installWrites store c.writes.items)
    fun tid => ⟨values tid, 0⟩

/-- The states committed in the course of the history `h`. -/
def Committed (values : ι → V) (h : List (Event θ ι V R P)) (store : ι → TVar V) : Prop :=
  ∃ h₁, h₁ <+: h ∧ committedStore values h₁ = store

theorem committedStore_snoc (values : ι → V) (h : List (Event θ ι V R P))
    (e : Event θ ι V R P) :
    committedStore values (h ++ [e]) =
      match commitPoint e with
      | some c => installWrites (committedStore values h) c.writes.items
      | none => committedStore values h := by
  rw [committedStore, List.filterMap_append, List.foldl_append]
  cases hc : commitPoint e <;> simp [hc, committedStore]

theorem Committed.mono {values : ι → V} {h h' : List (Event θ ι V R P)}
    {store : ι → TVar V} (hc : Committed values h store) (hpre : h <+: h') :
    Committed values h' store := by
  obtain ⟨h₁, hh₁, rfl⟩ := hc
  exact ⟨h₁, hh₁.trans hpre, rfl⟩

theorem committed_self (values : ι → V) (h : List (Event θ ι V R P)) :
    Committed values h (committedStore values h) := ⟨h, List.prefix_rfl, rfl⟩

theorem installWrites_append (store : ι → TVar V) (done todo : List (ι × V)) :
    installWrites store (done ++ todo) = installWrites (installWrites store done) todo :=
  List.foldl_append

/-- Installing writes of other TVars leaves a TVar alone. -/
theorem installWrites_of_notMem (store : ι → TVar V) (writes : List (ι × V)) {tid : ι}
    (h : tid ∉ writes.map Prod.fst) : installWrites store writes tid = store tid := by
  induction writes generalizing store with
  | nil => rfl
  | cons w ws ih =>
      rw [List.map_cons, List.mem_cons, not_or] at h
      have hrest := ih (installWrite store w) h.2
      rw [installWrites, List.foldl_cons, ← installWrites, hrest, installWrite]
      exact Function.update_of_ne h.1 ..

/-- What the TVars hold, in terms of the committed states: the last one when no thread is
inside the write loop; otherwise the one before, with the writes that the loop has already
done. -/
structure Installing (values : ι → V) (h : List (Event θ ι V R P)) (s : State θ ι V R P) :
    Prop where
  quiet : (∀ i, (s.phase i).isWriting = false) → s.tvars = committedStore values h
  writing : ∀ i p txn r todo, s.phase i = .commitWrite p txn r todo →
    ∃ store done, Committed values h store ∧ txn.writeSet.items = done ++ todo ∧
      s.tvars = installWrites store done ∧
      committedStore values h = installWrites store txn.writeSet.items

/-- Every TVar on its own is that of some committed state, also inside a write loop. -/
theorem Installing.tvar_committed {values : ι → V} {h : List (Event θ ι V R P)}
    {s : State θ ι V R P} (hin : Installing values h s) (tid : ι) :
    ∃ store, Committed values h store ∧ store tid = s.tvars tid := by
  by_cases hquiet : ∀ i, (s.phase i).isWriting = false
  · exact ⟨_, committed_self values h, by rw [hin.quiet hquiet]⟩
  · obtain ⟨i, hi⟩ := not_forall.mp hquiet
    cases hph : s.phase i with
    | commitWrite p txn r todo =>
        obtain ⟨store, done, hstore, hitems, htvars, hnext⟩ := hin.writing i p txn r todo hph
        by_cases hdone : tid ∈ done.map Prod.fst
        · -- written already, and the rest of the loop does not come back to it
          have hnodup := txn.writeSet.nodup
          rw [hitems, List.map_append] at hnodup
          have hrest : tid ∉ todo.map Prod.fst := List.disjoint_of_nodup_append hnodup hdone
          refine ⟨_, committed_self values h, ?_⟩
          rw [hnext, hitems, installWrites_append, installWrites_of_notMem _ _ hrest, htvars]
        · exact ⟨store, hstore, by rw [htvars, installWrites_of_notMem _ _ hdone]⟩
    | _ => simp [hph, Phase.isWriting] at hi

end Committed

/-! ## Steps and runs -/

variable [DecidableEq θ] [DecidableEq ι] {prog : P → Body ι V R}

/-- A step that neither starts nor ends in the write loop commits nothing and keeps the
relation to the committed states. -/
theorem Installing.of_not_writing {values : ι → V} {h : List (Event θ ι V R P)}
    {s s' : State θ ι V R P} {i : θ} {e : Event θ ι V R P} (hin : Installing values h s)
    (hm : Move prog s i e s') (hi : (s.phase i).isWriting = false)
    (hi' : (s'.phase i).isWriting = false) : Installing values (h ++ [e]) s' := by
  have hsame := hm.tvars_eq_of_not_isWriting hi
  have hstore : committedStore values (h ++ [e]) = committedStore values h := by
    rw [committedStore_snoc]
    cases hm with
    | commitStart hph =>
        rw [State.phase_goto_self] at hi'
        cases hi'
    | _ => rfl
  constructor
  · intro hnone
    rw [hsame, hstore]
    refine hin.quiet fun j => ?_
    by_cases hj : j = i
    · rw [hj]
      exact hi
    · rw [← hm.phase_of_ne hj]
      exact hnone j
  · intro j p txn r todo hj
    have hne : j ≠ i := by
      rintro rfl
      rw [hj] at hi'
      cases hi'
    rw [hm.phase_of_ne hne] at hj
    obtain ⟨store, done, hcommitted, hitems, htvars, hnext⟩ := hin.writing j p txn r todo hj
    rw [hsame, hstore]
    exact ⟨store, done, hcommitted.mono (List.prefix_append h [e]), hitems, htvars, hnext⟩

omit [DecidableEq θ] in
/-- When thread `i` is in the write loop, it is the only one, and the relation speaks of it
alone. -/
theorem Installing.of_writing {values : ι → V} {h : List (Event θ ι V R P)}
    {s : State θ ι V R P} (hlock : LockInv s) {i : θ} {p : P} {txn : Transaction ι V} {r : R}
    {todo done : List (ι × V)} {store : ι → TVar V}
    (hph : s.phase i = .commitWrite p txn r todo) (hcommitted : Committed values h store)
    (hitems : txn.writeSet.items = done ++ todo) (htvars : s.tvars = installWrites store done)
    (hnext : committedStore values h = installWrites store txn.writeSet.items) :
    Installing values h s := by
  constructor
  · intro hnone
    have hi := hnone i
    rw [hph] at hi
    cases hi
  · intro j p' txn' r' todo' hj
    have hji : j = i := hlock.unique (by rw [hj]; rfl) (by rw [hph]; rfl)
    subst hji
    rw [hj] at hph
    cases hph
    exact ⟨store, done, hcommitted, hitems, htvars, hnext⟩

/-- One step keeps the relation to the committed states. -/
theorem Move.installing {values : ι → V} {h : List (Event θ ι V R P)} {s s' : State θ ι V R P}
    {i : θ} {e : Event θ ι V R P} (hm : Move prog s i e s') (hinv : CommitInv s)
    (hreg : ∀ tid, s.idToTvar tid = true) (hin : Installing values h s) :
    Installing values (h ++ [e]) s' := by
  have hlock' := (hm.commitInv hinv).lock
  have hraise := hm.not_commitRaise hinv (j := i)
  have hstay := fun hi hi' => hin.of_not_writing hm hi hi'
  cases hm with
  | @commitStart p txn r hph =>
      -- this thread holds the lock, so no other one is in its write loop
      have hstore : s.tvars = committedStore values h :=
        hin.quiet (hinv.lock.not_isWriting (by rw [hph]; rfl) (by rw [hph]; rfl))
      exact .of_writing hlock' (State.phase_goto_self ..)
        ((committed_self values h).mono (List.prefix_append h _)) (List.nil_append _).symm
        hstore (committedStore_snoc ..)
  | @write p txn r tid value rest hph _ _ =>
      obtain ⟨store, done, hcommitted, hitems, htvars, hnext⟩ := hin.writing i p txn r _ hph
      -- one more write of the write set has landed
      have hitems' : txn.writeSet.items = done ++ [(tid, value)] ++ rest := by simpa using hitems
      refine .of_writing hlock' (State.phase_store_self ..)
        (hcommitted.mono (List.prefix_append h _)) hitems' ?_ ?_
      · rw [State.tvars_store, installWrites_append, htvars]
        rfl
      · rw [committedStore_snoc]
        exact hnext
  | @writeSkip p txn r tid value rest hph hno =>
      -- every TVar is registered
      rw [hreg tid] at hno
      cases hno
  | writeRaise _ _ => exact absurd rfl (hraise _)
  | @commit p txn r hph =>
      obtain ⟨store, done, -, hitems, htvars, hnext⟩ := hin.writing i p txn r [] hph
      rw [List.append_nil] at hitems
      constructor
      · intro _
        rw [State.tvars_goto, htvars, committedStore_snoc, ← hitems]
        exact hnext.symm
      · intro j p' txn' r' todo' hj
        -- this thread still holds the lock, so no other one is in the write loop
        have hnone := hlock'.not_isWriting (i := i) (by rw [State.phase_goto_self]; rfl)
          (by rw [State.phase_goto_self]; rfl) j
        rw [hj] at hnone
        cases hnone
  | call hph | op hph _ | read hph _ | bodyDone hph _ | bodyFlag hph _ | bodyRetry hph
  | bodyEscape hph _ | check hph _ | checkFailed hph _ | validated hph | checkLocked hph _
  | checkLockedFailed hph _ | validatedLocked hph | checkCommit hph _ | checkCommitFailed hph _ =>
      apply hstay (by rw [hph]; rfl)
      rw [State.phase_goto_self]
      rfl
  | acquire hph _ | releaseReturned hph | releaseConflict hph | releaseRaised hph =>
      apply hstay (by rw [hph]; rfl)
      rw [State.phase_setLock_self]
      rfl

theorem run_installing {ok : State θ ι V R P → Action θ P → Prop} {values : ι → V}
    {s : State θ ι V R P} {h : List (Event θ ι V R P)}
    (hr : Run (step prog) ok (State.create values) h s) : Installing values h s := by
  induction hr with
  | nil =>
      refine ⟨fun _ => rfl, fun i p txn r todo hph => ?_⟩
      cases hph
  | snoc hr _ hs ih =>
      refine (step_move hs).installing (run_commitInv hr) (fun tid => ?_) ih
      rw [run_idToTvar hr]
      rfl

/-- Each access of a current attempt found the TVar as it is in some committed state. -/
theorem run_read_committed {ok : State θ ι V R P → Action θ P → Prop} {values : ι → V}
    {s : State θ ι V R P} {h : List (Event θ ι V R P)}
    (hr : Run (step prog) ok (State.create values) h s) (i : θ) :
    ∀ a ∈ attemptReads i h, ∃ store, Committed values h store ∧ store a.1 = a.2 := by
  induction hr with
  | nil => exact List.forall_mem_nil _
  | @snoc h s s' c e hr _ hs ih =>
      intro a ha
      rw [attemptReads_snoc] at ha
      have hpre := List.prefix_append h [e]
      have hearlier : a ∈ attemptReads i h →
          ∃ store, Committed values (h ++ [e]) store ∧ store a.1 = a.2 := by
        intro ha
        obtain ⟨store, hcommitted, heq⟩ := ih a ha
        exact ⟨store, hcommitted.mono hpre, heq⟩
      split_ifs at ha
      · cases ha
      · rcases List.mem_append.mp ha with ha | ha
        · exact hearlier ha
        · cases step_move hs with
          | @read _ tid _ _ _ _ =>
              have hfound : a = (tid, s.tvars tid) := by simpa [Event.readOf] using ha
              obtain ⟨store, hcommitted, heq⟩ := (run_installing hr).tvar_committed tid
              rw [hfound]
              exact ⟨store, hcommitted.mono hpre, heq⟩
          | _ => simp [Event.readOf] at ha
      · exact hearlier ha

/-- A TVar is as it was, or its version has grown. -/
theorem run_version {ok : State θ ι V R P → Action θ P → Prop} {s₀ s : State θ ι V R P}
    {h : List (Event θ ι V R P)} (hr : Run (step prog) ok s₀ h s) (tid : ι) :
    s.tvars tid = s₀.tvars tid ∨ (s₀.tvars tid).version < (s.tvars tid).version := by
  induction hr with
  | nil => exact Or.inl rfl
  | @snoc h s s' a e _ _ hs ih =>
      rw [(step_move hs).tvars_eq]
      have hstep := version_applyEvent s.tvars e tid
      rcases ih with heq | hlt
      · rw [← heq]
        exact hstep
      · right
        rcases hstep with heq' | hlt'
        · rw [heq']
          exact hlt
        · exact Nat.lt_trans hlt hlt'

/-- An access, made before or after a moment of the run, that found the version a TVar has at
that moment found the TVar of that moment. -/
theorem read_eq_of_version {ok : State θ ι V R P → Action θ P → Prop} {s₀ s₁ s : State θ ι V R P}
    {h₁ h₂ : List (Event θ ι V R P)} (hr₁ : Run (step prog) ok s₀ h₁ s₁)
    (hr₂ : Run (step prog) ok s₁ h₂ s) (i : θ) :
    ∀ a ∈ attemptReads i (h₁ ++ h₂), a.2.version = (s₁.tvars a.1).version →
      a.2 = s₁.tvars a.1 := by
  induction hr₂ with
  | nil =>
      intro a ha hv
      rw [List.append_nil] at ha
      exact (run_readsSound hr₁ i a ha).2 hv
  | @snoc h₂ s s' c e hr₂ _ hs ih =>
      intro a ha hv
      rw [← List.append_assoc, attemptReads_snoc] at ha
      split_ifs at ha
      · cases ha
      · rcases List.mem_append.mp ha with ha | ha
        · exact ih a ha hv
        · -- the access of this very step: the TVar has not been written since
          cases step_move hs with
          | @read _ tid _ _ _ _ =>
              have hfound : a = (tid, s.tvars tid) := by simpa [Event.readOf] using ha
              rw [hfound] at hv ⊢
              rcases run_version hr₂ tid with heq | hlt
              · exact heq
              · exact absurd hv (Nat.ne_of_gt hlt)
          | _ => simp [Event.readOf] at ha
      · exact ih a ha hv

/-! ## Snapshots -/

/-- In the state `s` no commit is in its write loop, and every TVar accessed in `rs` has the
version found: `validate` would pass. -/
def Validates (s : State θ ι V R P) (rs : List (ι × TVar V)) : Prop :=
  (∀ j, (s.phase j).isWriting = false) ∧ ∀ a ∈ rs, a.2.version = (s.tvars a.1).version

/-- An exception that leaves `atomically` was raised by the body, and by a run of it alone on
any store that has the TVars the attempt found. -/
theorem Move.runAlone_of_escape {s s' : State θ ι V R P} {i j : θ} {p : P} {x : Exn}
    {h : List (Event θ ι V R P)} {store : ι → TVar V} (hm : Move prog s j (.escape i p x) s')
    (hinv : CommitInv s) (hrun : PhaseRun prog (attemptReads i h) (s.phase i))
    (hreads : ∀ a ∈ attemptReads i h, store a.1 = a.2) :
    ((prog p).runAlone store).outcome = .error x := by
  cases hm with
  | @bodyEscape _ _ txn hph _ =>
      rw [hph] at hrun
      have hfollow := hrun _ (follows_follow store (attemptReads i h))
      have hexec : (prog p).exec (follow store (attemptReads i h)) 0 .init =
          ⟨.error x, txn, attemptReads i h⟩ := by
        rw [hfollow, Body.exec, Result.after, List.append_nil]
      have halone : (prog p).runAlone store = ⟨.error x, txn, attemptReads i h⟩ := by
        rw [Body.runAlone, ← hexec]
        exact Body.exec_eq_of_reads _ _ _ 0 0 _ (by rw [hexec]; exact hreads)
      rw [halone]
  | releaseRaised hph =>
      -- `commit` has not raised
      have hok := hinv.ok i
      rw [hph] at hok
      exact hok.elim

/-- **Snapshots.**  Each access of an attempt finds the TVar as it is in some committed state.
If the TVars that the attempt has read all had the versions it found at one moment of the run
between commits, they are those of the committed state of that moment; and an exception other
than `RetryException` that leaves `atomically` then is raised by the body run alone on it. -/
theorem run_snapshot {values : ι → V} {s₁ s : State θ ι V R P} {h₁ h₂ : List (Event θ ι V R P)}
    (hr₁ : Run (step prog) anyStep (State.create values) h₁ s₁)
    (hr₂ : Run (step prog) anyStep s₁ h₂ s) (i : θ) :
    (∀ a ∈ attemptReads i (h₁ ++ h₂), ∃ store, Committed values (h₁ ++ h₂) store ∧
      store a.1 = a.2) ∧
    (Validates s₁ (attemptReads i (h₁ ++ h₂)) →
      (∀ a ∈ attemptReads i (h₁ ++ h₂), committedStore values h₁ a.1 = a.2) ∧
      ∀ c p x s', step prog s c = some (.escape i p x, s') →
        ((prog p).runAlone (committedStore values h₁)).outcome = .error x) := by
  have hr := hr₁.trans hr₂
  refine ⟨run_read_committed hr i, fun hval => ?_⟩
  have hreads : ∀ a ∈ attemptReads i (h₁ ++ h₂), committedStore values h₁ a.1 = a.2 := by
    intro a ha
    rw [← (run_installing hr₁).quiet hval.1]
    exact (read_eq_of_version hr₁ hr₂ i a ha (hval.2 a ha)).symm
  refine ⟨hreads, fun c p x s' hs => ?_⟩
  exact (step_move hs).runAlone_of_escape (run_commitInv hr) (run_phaseRun hr (fun _ => rfl) i)
    hreads

/-! ## Where it fails -/

/-- What each attempt under way has read is all of one committed state. -/
def SeesCommitted (values : ι → V) (h : List (Event θ ι V R P)) (s : State θ ι V R P) : Prop :=
  ∀ i, s.phase i ≠ .idle → ∃ store, Committed values h store ∧
    ∀ a ∈ attemptReads i h, (store a.1).value = a.2.value

/-- Each exception that has left `atomically` is raised by the body run alone on some
committed state. -/
def RaisesCommitted (prog : P → Body ι V R) (values : ι → V) (h : List (Event θ ι V R P)) :
    Prop :=
  ∀ i p x, .escape i p x ∈ h →
    ∃ store, Committed values h store ∧ ((prog p).runAlone store).outcome = .error x

/-- Read both TVars and raise if they differ. -/
def checkEqual : Body Bool ℕ ℕ :=
  .readTvar false fun a => .readTvar true fun b =>
    if a = b then .done a else .raise (.exception "ValueError")

/-- Set both TVars to 1. -/
def setBoth : Body Bool ℕ ℕ := .writeTvar false 1 (.writeTvar true 1 (.done 1))

/-- The two programs. -/
def checkEqualOrSetBoth : Bool → Body Bool ℕ ℕ
  | true => checkEqual
  | false => setBoth

/-- Thread 0 reads both TVars, which hold 0 and 1; then thread 1 sets and commits both, and
thread 0 is about to raise. -/
theorem run_snapshot_checkEqual :
    ∃ h₁ h₂ : List (Event Bool Bool ℕ ℕ Bool),
      (∀ a ∈ attemptReads false (h₁ ++ h₂), committedStore (fun b => b.toNat) h₁ a.1 = a.2) ∧
      (attemptReads false (h₁ ++ h₂)).map (fun a => a.2.value) = [0, 1] ∧
      (checkEqual.runAlone (committedStore (fun b => b.toNat) h₁)).outcome =
        .error (.exception "ValueError") := by
  have hr₁ := run_of_replay (step checkEqualOrSetBoth) (s := State.create fun b => b.toNat)
    [.call false true, .sched false, .sched false] rfl
  have hsnap := run_snapshot hr₁ (run_of_replay (step checkEqualOrSetBoth)
    (.call true false :: List.replicate 11 (.sched true)) rfl) false
  obtain ⟨hreads, hescape⟩ := hsnap.2 ⟨by decide, by decide⟩
  exact ⟨_, _, hreads, rfl, hescape (.sched false) true _ _ rfl⟩

/-- Thread 0 reads the first TVar, thread 1 sets and commits both, thread 0 reads the
second. -/
def tornReadsSchedule : List (Action Bool Bool) :=
  [.call false true, .sched false, .call true false] ++ List.replicate 11 (.sched true) ++
    [.sched false]

/-- In a history with one commit, which is of `setBoth`, both TVars hold the same value in
every committed state. -/
theorem value_eq_of_committed {h : List (Event Bool Bool ℕ ℕ Bool)} {store : Bool → TVar ℕ}
    {c : Commit Bool ℕ ℕ Bool} (hcommits : h.filterMap commitPoint = [c])
    (hwrites : c.writes.items = [(false, 1), (true, 1)])
    (hc : Committed (fun _ => 0) h store) : (store false).value = (store true).value := by
  obtain ⟨h₁, hpre, rfl⟩ := hc
  have hcommits₁ := hpre.filterMap commitPoint
  rw [hcommits] at hcommits₁
  rw [committedStore]
  rcases List.prefix_cons_iff.mp hcommits₁ with hnone | ⟨t, hsome, ht⟩
  · rw [hnone]
    rfl
  · rw [hsome, List.prefix_nil.mp ht, List.foldl_cons, hwrites]
    rfl

/-- **No snapshots.**  An attempt can read half of a commit, and raise what the body alone
raises on no committed state. -/
theorem not_snapshot :
    (¬ ∀ (θ ι V R P : Type) [DecidableEq θ] [DecidableEq ι] (prog : P → Body ι V R)
      (values : ι → V) (h : List (Event θ ι V R P)) (s : State θ ι V R P),
        Run (step prog) anyStep (State.create values) h s → SeesCommitted values h s) ∧
    ¬ ∀ (θ ι V R P : Type) [DecidableEq θ] [DecidableEq ι] (prog : P → Body ι V R)
      (values : ι → V) (h : List (Event θ ι V R P)) (s : State θ ι V R P),
        Run (step prog) anyStep (State.create values) h s → RaisesCommitted prog values h := by
  constructor
  · intro hall
    have hr := run_of_replay (step checkEqualOrSetBoth) (s := State.create fun _ => 0)
      tornReadsSchedule rfl
    obtain ⟨store, hcommitted, hreads⟩ := hall _ _ _ _ _ _ _ _ _ hr false (by intro h; cases h)
    have hx := hreads (false, ⟨0, 0⟩) (List.mem_of_getElem? (i := 0) rfl)
    have hy := hreads (true, ⟨1, 1⟩) (List.mem_of_getElem? (i := 1) rfl)
    have heq := value_eq_of_committed rfl rfl hcommitted
    rw [hx, hy] at heq
    cases heq
  · intro hall
    have hr := run_of_replay (step checkEqualOrSetBoth) (s := State.create fun _ => 0)
      (tornReadsSchedule ++ [.sched false]) rfl
    obtain ⟨store, hcommitted, hraise⟩ := hall _ _ _ _ _ _ _ _ _ hr false true
      (.exception "ValueError") (List.mem_of_getElem? (i := 15) rfl)
    have heq := value_eq_of_committed rfl rfl hcommitted
    -- alone on two equal values, `checkEqual` returns
    have hdone : (checkEqual.runAlone store).outcome = .ok (store false).value := by
      rw [Body.runAlone, checkEqual, Body.exec_readTvar_of_not_written _ _ _ rfl,
        Body.exec_readTvar_of_not_written _ _ _ rfl, if_pos heq]
      rfl
    rw [show checkEqualOrSetBoth true = checkEqual from rfl, hdone] at hraise
    cases hraise

end Stm