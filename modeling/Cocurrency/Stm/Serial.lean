/-
# Serializability of `atomically`

The abstract model is a machine that runs one program at a time, alone
(`runSerially`).  The claim of the STM is that the commits in the history of any
interleaving are a history of that machine, and that the TVars hold the machine's
store whenever no thread is inside the write loop of `commit` (`Serializable`).

That fails: `read_tvar` on a TVar that is already in the read set overwrites the
recorded version, so the version of the first access is never validated
(`not_serializable`).  It holds in every run in which no such access finds a newer
version than the one on record (`run_serializable`), in particular when no body reads
a TVar twice (`run_freshRead_of_readOnce`).
-/
import Cocurrency.Stm.Commit

namespace Stm

variable {θ ι V R P : Type}

/-! ## The serial machine -/

/-- What a committed attempt did: its program, the result it returned and the write set
it installed. -/
structure Commit (ι V R P : Type) where
  p : P
  result : R
  writes : Dict ι V

/-- The commit that an event completes, if it does. -/
def commitOf : Event θ ι V R P → Option (Commit ι V R P)
  | .commit _ p txn r => some ⟨p, r, txn.writeSet⟩
  | _ => none

/-- The committed attempts, in commit order. -/
def commits (h : List (Event θ ι V R P)) : List (Commit ι V R P) := h.filterMap commitOf

section Serial

variable [DecidableEq ι]

/-- Install one write. -/
def installWrite (store : ι → TVar V) (w : ι × V) : ι → TVar V :=
  Function.update store w.1 ⟨w.2, (store w.1).version + 1⟩

/-- Install a write set. -/
def installWrites (store : ι → TVar V) (writes : List (ι × V)) : ι → TVar V :=
  writes.foldl installWrite store

/-- Run a program alone: if it returns without having signalled retry, it commits. -/
def runSerially (prog : P → Body ι V R) (store : ι → TVar V) (p : P) :
    Option (Commit ι V R P × (ι → TVar V)) :=
  match (prog p).runAlone store with
  | ⟨.ok r, txn, _⟩ =>
      if txn.shouldRetry then none
      else some (⟨p, r, txn.writeSet⟩, installWrites store txn.writeSet.items)
  | ⟨.error _, _, _⟩ => none

theorem runSerially_of_runAlone {prog : P → Body ι V R} {store : ι → TVar V} {p : P} {r : R}
    {txn : Transaction ι V} {rs : List (ι × TVar V)}
    (hrun : (prog p).runAlone store = ⟨.ok r, txn, rs⟩) (hflag : txn.shouldRetry = false) :
    runSerially prog store p =
      some (⟨p, r, txn.writeSet⟩, installWrites store txn.writeSet.items) := by
  rw [runSerially, hrun]
  simp [hflag]

/-- What the TVars hold, in terms of the serial machine's store: that store when no
thread is inside the write loop; otherwise the store with the writes the loop has
already done, and the commit of that loop is a step the serial machine can take. -/
def StoreInv (prog : P → Body ι V R) (s : State θ ι V R P) (store : ι → TVar V) : Prop :=
  ((∀ i, (s.phase i).isWriting = false) → s.tvars = store) ∧
    ∀ i p txn r todo, s.phase i = .commitWrite p txn r todo →
      runSerially prog store p =
        some (⟨p, r, txn.writeSet⟩, installWrites store txn.writeSet.items) ∧
      ∃ done, txn.writeSet.items = done ++ todo ∧ s.tvars = installWrites store done

/-- The commits in the history `h` are a history of the serial machine from the initial
values, and the TVars hold its store. -/
def Serializable (prog : P → Body ι V R) (values : ι → V) (h : List (Event θ ι V R P))
    (s : State θ ι V R P) : Prop :=
  ∃ store, Run (runSerially prog) anyStep (fun tid => ⟨values tid, 0⟩) (commits h) store ∧
    StoreInv prog s store

end Serial

/-! ## Accesses on record -/

variable [DecidableEq θ] [DecidableEq ι] {prog : P → Body ι V R}

/-- The step is not a `read_tvar` that finds a TVar of its read set under another version
than the one on record. -/
def FreshRead (s : State θ ι V R P) (a : Action θ P) : Prop :=
  ∀ p tid k txn, s.phase a.thread = .body p (.readTvar tid k) txn →
    txn.writeSet.get tid = none →
      ∀ v ver, txn.readSet.get tid = some (v, ver) → ver = (s.tvars tid).version

/-- Every access in `rs` is what the read set has on record. -/
def Recorded (rs : List (ι × TVar V)) (txn : Transaction ι V) : Prop :=
  ∀ a ∈ rs, txn.readSet.get a.1 = some (a.2.value, a.2.version)

/-- The read set of the phase has every access of the attempt on record, and the rest of
its body leaves the sets alone. -/
def PhaseRecorded (rs : List (ι × TVar V)) : Phase ι V R P → Prop
  | .body _ cur txn => cur.Plain ∧ Recorded rs txn
  | .validate _ txn _ _ | .acquire _ txn _ | .validateLocked _ txn _ _
  | .commitValidate _ txn _ _ | .commitWrite _ txn _ _ => Recorded rs txn
  | .idle | .release _ _ => True

omit [DecidableEq θ] in
theorem phaseRecorded_iff (rs : List (ι × TVar V)) (ph : Phase ι V R P) :
    PhaseRecorded rs ph ↔
      PhaseTxn (fun _ rs cur txn => cur.Plain ∧ Recorded rs txn) (fun _ _ rs txn => Recorded rs txn)
        rs ph := by
  cases ph <;> exact Iff.rfl

theorem attemptRule_recorded (hplain : ∀ p, (prog p).Plain) :
    AttemptRule prog (fun _ rs cur txn => cur.Plain ∧ Recorded rs txn)
      fun _ _ rs txn => Recorded rs txn where
  start := fun p => ⟨hplain p, List.forall_mem_nil _⟩
  op := by
    rintro p rs cur txn cur' txn' hop ⟨hcur, hrec⟩
    cases hop with
    | written _ | shouldRetry => exact ⟨hcur _, hrec⟩
    | writeTvar | retryFlag => exact ⟨hcur, hrec⟩
    | copySets | restoreSets => exact hcur.elim
  done := fun _ h => h.2

omit [DecidableEq θ] in
/-- A fresh access finds the TVar as the earlier ones did, so their record stands. -/
theorem Recorded.readTvar {tvars : ι → TVar V} {rs : List (ι × TVar V)} {txn : Transaction ι V}
    {tid : ι} (hrec : Recorded rs txn) (hsound : ReadsSound tvars rs)
    (hw : txn.writeSet.get tid = none)
    (hfresh : ∀ v ver, txn.readSet.get tid = some (v, ver) → ver = (tvars tid).version) :
    Recorded (rs ++ [(tid, tvars tid)]) (txn.readTvar tid (tvars tid)).2 := by
  intro a ha
  rw [Transaction.readTvar_of_not_written _ hw]
  rcases List.mem_append.mp ha with ha | ha
  · by_cases htid : a.1 = tid
    · -- a second access: fresh, so it found the same TVar
      have hver : a.2.version = (tvars a.1).version := by
        rw [htid]
        exact hfresh _ _ (by rw [← htid]; exact hrec a ha)
      rw [(hsound a ha).2 hver, htid]
      exact Dict.get_set_self _ _ _
    · have hkept : (txn.readSet.set tid ((tvars tid).value, (tvars tid).version)).get a.1 =
          txn.readSet.get a.1 := Dict.get_set_of_ne _ _ htid
      exact hkept.trans (hrec a ha)
  · rw [List.mem_singleton.mp ha]
    exact Dict.get_set_self _ _ _

/-- In every run of fresh steps the accesses are on record. -/
theorem run_phaseRecorded (hplain : ∀ p, (prog p).Plain) {values : ι → V}
    {s : State θ ι V R P} {h : List (Event θ ι V R P)}
    (hr : Run (step prog) FreshRead (State.create values) h s) (i : θ) :
    PhaseRecorded (attemptReads i h) (s.phase i) := by
  refine run_ownSteps (fun i h ph => PhaseRecorded (attemptReads i h) ph) ?_ ?_ ?_ hr i
  · intro i
    trivial
  · intro h s a e s' hr hfresh hm hi
    rw [phaseRecorded_iff] at hi ⊢
    refine hm.phaseTxn_self (attemptRule_recorded hplain) ?_ hi
    rintro p tid k txn hph hw ⟨hcur, hrec⟩
    exact ⟨hcur _, hrec.readTvar (run_readsSound hr _) hw (hfresh p tid k txn hph hw)⟩
  · intro i h e ph hne hi
    rw [attemptReads_snoc, if_neg hne]
    exact hi

/-- **The commit point.**  When the `validate` of `commit` is through, the TVars are
what the attempt found at each of its accesses, so its program run alone on them does
what the attempt did. -/
theorem runAlone_of_validated {s : State θ ι V R P} {h : List (Event θ ι V R P)} {i : θ} {p : P}
    {txn : Transaction ι V} {r : R} (hph : s.phase i = .commitValidate p txn r [])
    (hinv : CommitInv s) (hsound : ReadsSound s.tvars (attemptReads i h))
    (hrec : Recorded (attemptReads i h) txn)
    (hrun : PhaseRun prog (attemptReads i h) (s.phase i)) :
    (prog p).runAlone s.tvars = ⟨.ok r, txn, attemptReads i h⟩ ∧ txn.shouldRetry = false := by
  have hok := hinv.ok i
  rw [hph] at hok hrun
  obtain ⟨hflag, hexec⟩ := hrun
  -- the version on record is the one that was validated, and it fixes the value
  have hcur : ∀ a ∈ attemptReads i h, s.tvars a.1 = a.2 := by
    intro a ha
    have hentry := hok.1 _ ((Dict.get_eq_some_iff _ _ _).mp (hrec a ha))
    rw [versionOk, Bool.and_eq_true, beq_iff_eq] at hentry
    exact ((hsound a ha).2 hentry.2.symm).symm
  have hfollow := hexec _ (follows_follow s.tvars (attemptReads i h))
  refine ⟨?_, hflag⟩
  rw [Body.runAlone, ← hfollow]
  exact Body.exec_eq_of_reads _ _ _ 0 0 _ (by rw [hfollow]; exact hcur)

/-! ## The simulation -/

/-- A step of thread `i` that neither starts nor ends in the write loop keeps the
relation to the store. -/
theorem StoreInv.of_not_writing {s s' : State θ ι V R P} {store : ι → TVar V} {i : θ}
    {e : Event θ ι V R P} (h : StoreInv prog s store) (hm : Move prog s i e s')
    (hi : (s.phase i).isWriting = false)
    (hi' : (s'.phase i).isWriting = false) : StoreInv prog s' store := by
  have hsame := hm.tvars_eq_of_not_isWriting hi
  constructor
  · intro hnone
    rw [hsame]
    refine h.1 fun j => ?_
    by_cases hj : j = i
    · rw [hj]
      exact hi
    · rw [← hm.phase_of_ne hj]
      exact hnone j
  · intro j p txn r todo hj
    have hne : j ≠ i := by
      rintro rfl
      rw [hj] at hi'
      cases hi'
    rw [hm.phase_of_ne hne] at hj
    rw [hsame]
    exact h.2 j p txn r todo hj

omit [DecidableEq θ] in
/-- When thread `i` is the only one that may be in the write loop, the store relation
speaks of it alone. -/
theorem StoreInv.of_writing {s : State θ ι V R P} {store : ι → TVar V} (hlock : LockInv s) {i : θ}
    {p : P} {txn : Transaction ι V} {r : R} {todo done : List (ι × V)}
    (hph : s.phase i = .commitWrite p txn r todo)
    (hserial : runSerially prog store p =
      some (⟨p, r, txn.writeSet⟩, installWrites store txn.writeSet.items))
    (hdone : txn.writeSet.items = done ++ todo) (htvars : s.tvars = installWrites store done) :
    StoreInv prog s store := by
  constructor
  · intro hnone
    have hi := hnone i
    rw [hph] at hi
    cases hi
  · intro j p' txn' r' todo' hj
    have hji : j = i := hlock.unique (by rw [hj]; rfl) (by rw [hph]; rfl)
    subst hji
    rw [hj] at hph
    cases hph
    exact ⟨hserial, done, hdone, htvars⟩

/-- Steps other than the return of `commit` keep the store. -/
theorem Move.storeInv_silent {s s' : State θ ι V R P} {i : θ} {e : Event θ ι V R P}
    {h : List (Event θ ι V R P)} {store : ι → TVar V} (hm : Move prog s i e s')
    (hinv : CommitInv s) (hsound : ReadsSound s.tvars (attemptReads i h))
    (hrec : PhaseRecorded (attemptReads i h) (s.phase i))
    (hrun : PhaseRun prog (attemptReads i h) (s.phase i))
    (hreg : ∀ tid, s.idToTvar tid = true) (hobs : commitOf e = none)
    (hst : StoreInv prog s store) : StoreInv prog s' store := by
  have hlock' := (hm.commitInv hinv).lock
  have hraise := hm.not_commitRaise hinv (j := i)
  have hstay := fun hi hi' => hst.of_not_writing hm hi hi'
  cases hm with
  | @commitStart p txn r hph =>
      have hrec' := hrec
      rw [hph] at hrec'
      obtain ⟨halone, hflag⟩ := runAlone_of_validated hph hinv hsound hrec' hrun
      -- this thread holds the lock, so no other one is in its write loop
      have hstore : s.tvars = store :=
        hst.1 (hinv.lock.not_isWriting (by rw [hph]; rfl) (by rw [hph]; rfl))
      rw [hstore] at halone
      exact StoreInv.of_writing hlock' (State.phase_goto_self ..)
        (runSerially_of_runAlone halone hflag) (List.nil_append _).symm hstore
  | @write p txn r tid value rest hph _ _ =>
      obtain ⟨hserial, done, hdone, htvars⟩ := hst.2 i p txn r _ hph
      -- one more write of the write set has landed
      have hdone' : txn.writeSet.items = done ++ [(tid, value)] ++ rest := by simpa using hdone
      apply StoreInv.of_writing hlock' (State.phase_store_self ..) hserial hdone'
      rw [State.tvars_store, htvars, installWrites, installWrites, List.foldl_append]
      rfl
  | @writeSkip p txn r tid value rest hph hno =>
      -- every TVar is registered
      rw [hreg tid] at hno
      cases hno
  | commit _ => cases hobs
  | writeRaise _ _ => exact absurd rfl (hraise _)
  | call hph | op hph _ | read hph _ | bodyDone hph _ | bodyFlag hph _ | bodyRetry hph
  | bodyEscape hph _ | check hph _ | checkFailed hph _ | validated hph | checkLocked hph _
  | checkLockedFailed hph _ | validatedLocked hph | checkCommit hph _ | checkCommitFailed hph _ =>
      apply hstay (by rw [hph]; rfl)
      rw [State.phase_goto_self]
      rfl
  | acquire hph _ | releaseReturned hph | releaseConflict hph | releaseRaised hph =>
      apply hstay (by rw [hph]; rfl)
      rw [State.phase_setLock_self]
      rfl

/-- The return of `commit` is a step of the serial machine. -/
theorem Move.storeInv_visible {s s' : State θ ι V R P} {i : θ} {e : Event θ ι V R P}
    {store : ι → TVar V} {c : Commit ι V R P} (hm : Move prog s i e s') (hinv : CommitInv s)
    (hobs : commitOf e = some c) (hst : StoreInv prog s store) :
    ∃ p store', runSerially prog store p = some (c, store') ∧ StoreInv prog s' store' := by
  have hlock' := (hm.commitInv hinv).lock
  cases hm with
  | @commit p txn r hph =>
      cases hobs
      obtain ⟨hserial, done, hdone, htvars⟩ := hst.2 i p txn r [] hph
      rw [List.append_nil] at hdone
      refine ⟨p, _, hserial, fun _ => ?_, fun j p' txn' r' todo' hj => ?_⟩
      · rw [State.tvars_goto, htvars, hdone]
      · -- this thread still holds the lock, so no other one is in the write loop
        have hnone := hlock'.not_isWriting (i := i) (by rw [State.phase_goto_self]; rfl)
          (by rw [State.phase_goto_self]; rfl) j
        rw [hj] at hnone
        cases hnone
  | _ => cases hobs

/-- In a run of fresh steps, the serial machine simulates the commits. -/
theorem serializable_of_freshRead (hplain : ∀ p, (prog p).Plain) {values : ι → V}
    {s : State θ ι V R P} {h : List (Event θ ι V R P)}
    (hr : Run (step prog) FreshRead (State.create values) h s) :
    Serializable prog values h s := by
  refine Run.simulate commitOf (fun _ s store => StoreInv prog s store) _ ?_ ?_ ?_ hr
  · refine ⟨fun _ => rfl, fun i p txn r todo hph => ?_⟩
    cases hph
  · intro h s a e s' store hr hst _ hs hobs
    refine (step_move hs).storeInv_silent (run_commitInv hr) (run_readsSound hr _)
      (run_phaseRecorded hplain hr _) (run_phaseRun hr (fun _ => rfl) _) (fun tid => ?_) hobs hst
    rw [run_idToTvar hr]
    rfl
  · intro h s a e s' store c hr hst _ hs hobs
    exact (step_move hs).storeInv_visible (run_commitInv hr) hobs hst

/-- **Serializability.**  If bodies do not use `_or_else` and every `read_tvar` of a TVar
that is in the read set already finds the version on record, the commits of any
interleaving are those of the programs run one at a time in commit order. -/
theorem run_serializable (hplain : ∀ p, (prog p).Plain) {values : ι → V}
    {s : State θ ι V R P} {h : List (Event θ ι V R P)}
    (hr : Run (step prog) FreshRead (State.create values) h s) :
    Serializable prog values h s :=
  serializable_of_freshRead hplain hr

/-! ## Bodies that read no TVar twice -/

/-- The rest of the body reads no TVar that the read set has. -/
def PhaseReadOnce : Phase ι V R P → Prop
  | .body _ cur txn =>
      ∃ seen : ι → Prop, cur.ReadOnce seen ∧ ∀ tid, txn.readSet.get tid ≠ none → seen tid
  | _ => True

theorem attemptRule_readOnce (honce : ∀ p, (prog p).ReadOnce fun _ => False) :
    AttemptRule prog
      (fun _ _ cur txn =>
        ∃ seen : ι → Prop, cur.ReadOnce seen ∧ ∀ tid, txn.readSet.get tid ≠ none → seen tid)
      fun _ _ _ _ => True where
  start := fun p => ⟨_, honce p, fun tid hget => hget (Dict.get_empty tid)⟩
  op := by
    rintro p rs cur txn cur' txn' hop ⟨seen, hcur, hseen⟩
    cases hop with
    | written _ => exact ⟨_, hcur.2 _, fun t hget => Or.inr (hseen t hget)⟩
    | writeTvar | retryFlag => exact ⟨seen, hcur, hseen⟩
    | shouldRetry => exact ⟨seen, hcur _, hseen⟩
    | copySets | restoreSets => exact hcur.elim
  done := fun _ _ => trivial

theorem run_phaseReadOnce (honce : ∀ p, (prog p).ReadOnce fun _ => False)
    {ok : State θ ι V R P → Action θ P → Prop} {s₀ s : State θ ι V R P}
    {h : List (Event θ ι V R P)} (hr : Run (step prog) ok s₀ h s)
    (hidle : ∀ i, s₀.phase i = .idle) (i : θ) : PhaseReadOnce (s.phase i) := by
  have hphase := (attemptRule_readOnce honce).run ?_ hr hidle i
  · cases hph : s.phase i with
    | body p cur txn =>
        rw [hph] at hphase
        exact hphase
    | _ => trivial
  · rintro p rs tid k txn tvar hw ⟨seen, hcur, hseen⟩
    refine ⟨_, hcur.2 _, fun t hget => ?_⟩
    rw [Transaction.readTvar_of_not_written _ hw] at hget
    by_cases ht : t = tid
    · exact Or.inl ht
    · refine Or.inr (hseen t fun hnone => hget ?_)
      exact (Dict.get_set_of_ne _ _ ht).trans hnone

/-- When no body reads a TVar twice, every run meets the condition of `run_serializable`. -/
theorem run_freshRead_of_readOnce (honce : ∀ p, (prog p).ReadOnce fun _ => False)
    {values : ι → V} {s : State θ ι V R P} {h : List (Event θ ι V R P)}
    (hr : Run (step prog) anyStep (State.create values) h s) :
    Run (step prog) FreshRead (State.create values) h s := by
  refine hr.strengthen fun h s a e s' hr _ hs p tid k txn hph hw v ver hget => ?_
  have hphase := run_phaseReadOnce honce hr (fun _ => rfl) a.thread
  rw [hph] at hphase
  obtain ⟨seen, hcur, hseen⟩ := hphase
  -- a TVar on record has been seen, so the body does not read it again
  exact absurd (hseen tid (by rw [hget]; exact Option.some_ne_none _)) hcur.1

theorem run_serializable_increment :
    ∃ h s, (commits h).map Commit.result = [0, 1] ∧
      Serializable (fun _ : Unit => increment) (fun _ => 0) h (s : State Bool Unit ℕ ℕ Unit) := by
  have honce : ∀ p : Unit, increment.ReadOnce fun _ => False :=
    fun _ => ⟨id, fun _ => trivial⟩
  have hr := run_freshRead_of_readOnce honce
    (run_of_replay (step fun _ => increment) (s := State.create fun _ => 0)
      incrementSchedule rfl)
  have hplain : ∀ p : Unit, increment.Plain := fun _ _ => trivial
  exact ⟨_, _, rfl, run_serializable hplain hr⟩

/-! ## Where it fails -/

/-- Read a TVar twice and return both values. -/
def readTwice : Body Unit ℕ (ℕ × ℕ) := .readTvar () fun a => .readTvar () fun b => .done (a, b)

/-- Set the TVar to 1. -/
def setOne : Body Unit ℕ (ℕ × ℕ) := .writeTvar () 1 (.done (0, 0))

/-- The two programs of the counterexample. -/
def readTwiceOrSetOne : Bool → Body Unit ℕ (ℕ × ℕ)
  | true => readTwice
  | false => setOne

/-- Thread 0 reads the TVar, thread 1 sets and commits it, thread 0 reads it again and
commits. -/
def staleReadSchedule : List (Action Bool Bool) :=
  [.call false true, .sched false,
    .call true false] ++ List.replicate 9 (.sched true) ++ List.replicate 10 (.sched false)

/-- Run serially, both programs return a pair of equal values. -/
theorem runSerially_readTwice {store store' : Unit → TVar ℕ} {p : Bool}
    {c : Commit Unit ℕ (ℕ × ℕ) Bool}
    (h : runSerially readTwiceOrSetOne store p = some (c, store')) : c.result.1 = c.result.2 := by
  have hc : (runSerially readTwiceOrSetOne store p).map (fun x => x.1.result) =
      some c.result := by rw [h]; rfl
  cases p with
  | true =>
      have hrun : some ((store ()).value, (store ()).value) = some c.result := hc
      rw [← Option.some.inj hrun]
  | false =>
      have hrun : some (0, 0) = some c.result := hc
      rw [← Option.some.inj hrun]

/-- **Not serializable.**  A body that reads a TVar twice can commit with two different
values: the second access replaces the record of the first. -/
theorem not_serializable :
    ¬ ∀ (θ ι V R P : Type) [DecidableEq θ] [DecidableEq ι] (prog : P → Body ι V R),
      (∀ p, (prog p).Plain) → ∀ (values : ι → V) (h : List (Event θ ι V R P))
        (s : State θ ι V R P), Run (step prog) anyStep (State.create values) h s →
          Serializable prog values h s := by
  intro hall
  have hr := run_of_replay (step readTwiceOrSetOne) (s := State.create fun _ => 0)
    staleReadSchedule rfl
  obtain ⟨store, hrun, -⟩ := hall Bool Unit ℕ (ℕ × ℕ) Bool readTwiceOrSetOne
    (by rintro (_ | _) <;> simp [readTwiceOrSetOne, readTwice, setOne, Body.Plain]) _ _ _ hr
  -- in a serial history every commit returns two equal values
  have hserial := Run.invariant
    (fun (cs : List (Commit Unit ℕ (ℕ × ℕ) Bool)) _ => ∀ c ∈ cs, c.result.1 = c.result.2)
    (List.forall_mem_nil _)
    (fun cs _ _ c _ hcs _ hstep => by
      intro c' hc'
      rcases List.mem_append.mp hc' with hc' | hc'
      · exact hcs c' hc'
      · rw [List.mem_singleton.mp hc']
        exact runSerially_readTwice hstep) hrun
  have hstale := hserial ⟨true, (0, 1), Dict.empty⟩ (List.mem_of_getElem? (i := 1) rfl)
  exact absurd hstale (by decide)

end Stm
