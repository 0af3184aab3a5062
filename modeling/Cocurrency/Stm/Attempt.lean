/-
# Attempts: what the history says about a thread's current attempt

`attemptEvents i h` are the events of thread `i` since it began the attempt it is in,
`attemptReads i h` its accesses to TVars among them.  Two rules take a step of a thread to
whole runs: `run_ownSteps` for its phase, and `AttemptRule.run` for what every operation of
a body keeps.  Two facts hold in every run and carry the results on serializability:

* `run_readsSound` : a TVar that still has the version an access found still has the
  value it found (versions only grow);
* `run_phaseRun` : where a thread stands in its body is where `Body.exec` stands when
  fed the accesses of the attempt.
-/
import Mathlib.Data.List.Basic
import Cocurrency.Stm.Moves

namespace Stm

variable {θ ι V R P : Type}

/-! ## Events of the current attempt -/

/-- The thread an event belongs to. -/
def Event.thread : Event θ ι V R P → θ
  | .call i _ | .tau i | .read i _ _ | .check i _ | .checkFailed i _ | .acquire i
  | .commitStart i _ _ _ | .write i _ _ | .commit i _ _ _ | .commitRaise i _
  | .abort i _ _ | .returned i _ _ | .escape i _ _ => i

/-- The event begins an attempt. -/
def Event.beginsAttempt : Event θ ι V R P → Bool
  | .call _ _ | .abort _ _ _ => true
  | _ => false

/-- The event ends an attempt that has not committed: by a retry signal or a failed
`validate`, or by an exception that leaves `atomically`. -/
def Event.givesUp : Event θ ι V R P → Bool
  | .abort _ _ _ | .escape _ _ _ => true
  | _ => false

/-- The access to a TVar that the event is, if it is one. -/
def Event.readOf : Event θ ι V R P → Option (ι × TVar V)
  | .read _ tid tvar => some (tid, tvar)
  | _ => none

variable [DecidableEq θ]

/-- One more event, seen by thread `i`. -/
def noteEvent (i : θ) (acc : List (Event θ ι V R P)) (e : Event θ ι V R P) :
    List (Event θ ι V R P) :=
  if e.thread = i then if e.beginsAttempt then [] else acc ++ [e] else acc

/-- The events of thread `i` since its current attempt began. -/
def attemptEvents (i : θ) (h : List (Event θ ι V R P)) : List (Event θ ι V R P) :=
  h.foldl (noteEvent i) []

/-- The accesses to TVars of the current attempt of thread `i`. -/
def attemptReads (i : θ) (h : List (Event θ ι V R P)) : List (ι × TVar V) :=
  (attemptEvents i h).filterMap Event.readOf

/-- The events of the attempt, one more. -/
theorem attemptEvents_snoc (i : θ) (h : List (Event θ ι V R P)) (e : Event θ ι V R P) :
    attemptEvents i (h ++ [e]) =
      if e.thread = i then if e.beginsAttempt then [] else attemptEvents i h ++ [e]
      else attemptEvents i h := by
  rw [attemptEvents, List.foldl_append]
  rfl

/-- The reads of the attempt, one more. -/
theorem attemptReads_snoc (i : θ) (h : List (Event θ ι V R P)) (e : Event θ ι V R P) :
    attemptReads i (h ++ [e]) =
      if e.thread = i then if e.beginsAttempt then [] else attemptReads i h ++ e.readOf.toList
      else attemptReads i h := by
  rw [attemptReads, attemptEvents_snoc]
  split_ifs
  · rfl
  · cases hr : e.readOf <;> simp [attemptReads, hr]
  · rfl

/-- A read more. -/
theorem attemptReads_read (i : θ) (h : List (Event θ ι V R P)) (tid : ι) (tvar : TVar V) :
    attemptReads i (h ++ [.read i tid tvar]) = attemptReads i h ++ [(tid, tvar)] := by
  have hthread : (Event.read i tid tvar : Event θ ι V R P).thread = i := rfl
  rw [attemptReads_snoc, if_pos hthread]
  rfl

variable [DecidableEq ι] {prog : P → Body ι V R}

namespace Move

variable {s s' : State θ ι V R P} {i j : θ} {e : Event θ ι V R P}

/-- A step is one of its thread. -/
theorem thread_eq (hm : Move prog s i e s') : e.thread = i := by
  cases hm <;> rfl

/-- What other threads do is not in the attempt. -/
theorem attemptEvents_of_ne (hm : Move prog s i e s') (hj : j ≠ i)
    (h : List (Event θ ι V R P)) : attemptEvents j (h ++ [e]) = attemptEvents j h := by
  rw [attemptEvents_snoc, if_neg]
  rw [hm.thread_eq]
  exact hj.symm

/-- And what they read is not. -/
theorem attemptReads_of_ne (hm : Move prog s i e s') (hj : j ≠ i)
    (h : List (Event θ ι V R P)) : attemptReads j (h ++ [e]) = attemptReads j h := by
  rw [attemptReads, hm.attemptEvents_of_ne hj, attemptReads]

/-- Within an attempt, what is no access leaves the accesses alone. -/
theorem attemptReads_of_within (hm : Move prog s i e s') (h : List (Event θ ι V R P))
    (hwithin : e.beginsAttempt = false) (hread : e.readOf = none) :
    attemptReads i (h ++ [e]) = attemptReads i h := by
  rw [attemptReads_snoc, if_pos hm.thread_eq, hwithin, hread]
  simp

/-- An attempt begins with nothing read. -/
theorem attemptReads_of_begins (hm : Move prog s i e s') (h : List (Event θ ι V R P))
    (hbegins : e.beginsAttempt = true) : attemptReads i (h ++ [e]) = [] := by
  rw [attemptReads_snoc, if_pos hm.thread_eq, hbegins, if_pos rfl]

end Move

/-! ## The rules for runs -/

/-- What the own steps of a thread keep of its phase and the history, and events of others do not
touch, holds in every run. -/
theorem run_ownSteps {ok : State θ ι V R P → Action θ P → Prop} {s₀ s : State θ ι V R P}
    {h : List (Event θ ι V R P)} (Φ : θ → List (Event θ ι V R P) → Phase ι V R P → Prop)
    (init : ∀ i, Φ i [] (s₀.phase i))
    (own : ∀ {h s a e s'}, Run (step prog) ok s₀ h s → ok s a → Move prog s a.thread e s' →
      Φ a.thread h (s.phase a.thread) → Φ a.thread (h ++ [e]) (s'.phase a.thread))
    (others : ∀ {i h e ph}, e.thread ≠ i → Φ i h ph → Φ i (h ++ [e]) ph)
    (hr : Run (step prog) ok s₀ h s) (i : θ) : Φ i h (s.phase i) := by
  induction hr generalizing i with
  | nil => exact init i
  | @snoc h s s' a e hr hok hs ih =>
      have hm := step_move hs
      by_cases hi : i = a.thread
      · subst hi
        exact own hr hok hm (ih _)
      · rw [hm.phase_of_ne hi]
        apply others _ (ih i)
        rw [hm.thread_eq]
        exact Ne.symm hi

/-- `B` holds of the accesses, the rest of the body and the transaction while the body runs, and `T`
of the result, the accesses and the transaction from there on to the end of the write loop. -/
def PhaseTxn (B : P → List (ι × TVar V) → Body ι V R → Transaction ι V → Prop)
    (T : P → R → List (ι × TVar V) → Transaction ι V → Prop) (rs : List (ι × TVar V)) :
    Phase ι V R P → Prop
  | .body p cur txn => B p rs cur txn
  | .validate p txn r _ | .acquire p txn r | .validateLocked p txn r _
  | .commitValidate p txn r _ | .commitWrite p txn r _ => T p r rs txn
  | .idle | .release _ _ => True

/-- `B` holds when a body begins, every operation but an access keeps it, and it makes `T` hold at
the end. -/
structure AttemptRule (prog : P → Body ι V R)
    (B : P → List (ι × TVar V) → Body ι V R → Transaction ι V → Prop)
    (T : P → R → List (ι × TVar V) → Transaction ι V → Prop) : Prop where
  start : ∀ p, B p [] (prog p) .init
  op : ∀ {p rs cur txn cur' txn'}, BodyTau cur txn cur' txn' → B p rs cur txn →
    B p rs cur' txn'
  done : ∀ {p rs r txn}, txn.shouldRetry = false → B p rs (.done r) txn → T p r rs txn

section Rule

variable {B : P → List (ι × TVar V) → Body ι V R → Transaction ι V → Prop}
  {T : P → R → List (ι × TVar V) → Transaction ι V → Prop}

/-- A step of a thread, if an access in this very step keeps `B`. -/
theorem Move.phaseTxn_self (rule : AttemptRule prog B T) {s s' : State θ ι V R P} {i : θ}
    {e : Event θ ι V R P} {h : List (Event θ ι V R P)}
    (read : ∀ {p tid k txn}, s.phase i = .body p (.readTvar tid k) txn →
      txn.writeSet.get tid = none → B p (attemptReads i h) (.readTvar tid k) txn →
        B p (attemptReads i h ++ [(tid, s.tvars tid)]) (k (s.tvars tid).value)
          (txn.readTvar tid (s.tvars tid)).2)
    (hm : Move prog s i e s') (hi : PhaseTxn B T (attemptReads i h) (s.phase i)) :
    PhaseTxn B T (attemptReads i (h ++ [e])) (s'.phase i) := by
  have hkeep := hm.attemptReads_of_within h
  have hbegin := hm.attemptReads_of_begins h
  cases hm with
  -- a new attempt has made no access and stands at the beginning
  | call _ | bodyFlag _ _ | bodyRetry _ | checkFailed _ _ =>
      rw [hbegin rfl, State.phase_goto_self]
      exact rule.start _
  | releaseConflict _ =>
      rw [hbegin rfl, State.phase_setLock_self]
      exact rule.start _
  | op hph hop =>
      rw [hkeep rfl rfl, State.phase_goto_self]
      rw [hph] at hi
      exact rule.op hop hi
  | read hph hw =>
      rw [attemptReads_read, State.phase_goto_self]
      rw [hph] at hi
      exact read hph hw hi
  | bodyDone hph hflag =>
      rw [hkeep rfl rfl, State.phase_goto_self]
      rw [hph] at hi
      exact rule.done hflag hi
  | check hph _ | validated hph | checkLocked hph _ | validatedLocked hph | checkCommit hph _
  | commitStart hph | writeSkip hph _ =>
      rw [hkeep rfl rfl, State.phase_goto_self]
      rw [hph] at hi
      exact hi
  | acquire hph _ =>
      rw [hkeep rfl rfl, State.phase_setLock_self]
      rw [hph] at hi
      exact hi
  | write hph _ _ =>
      rw [hkeep rfl rfl, State.phase_store_self]
      rw [hph] at hi
      exact hi
  | bodyEscape _ _ | checkLockedFailed _ _ | checkCommitFailed _ _ | writeRaise _ _ | commit _ =>
      rw [State.phase_goto_self]
      trivial
  | releaseReturned _ | releaseRaised _ =>
      rw [State.phase_setLock_self]
      trivial

/-- **The rule for attempts.** -/
theorem AttemptRule.run (rule : AttemptRule prog B T)
    (read : ∀ {p rs tid k txn} (tvar : TVar V), txn.writeSet.get tid = none →
      B p rs (.readTvar tid k) txn →
        B p (rs ++ [(tid, tvar)]) (k tvar.value) (txn.readTvar tid tvar).2)
    {ok : State θ ι V R P → Action θ P → Prop} {s₀ s : State θ ι V R P}
    {h : List (Event θ ι V R P)} (hr : Run (step prog) ok s₀ h s)
    (hidle : ∀ i, s₀.phase i = .idle) (i : θ) :
    PhaseTxn B T (attemptReads i h) (s.phase i) := by
  refine run_ownSteps (fun i h ph => PhaseTxn B T (attemptReads i h) ph) ?_ ?_ ?_ hr i
  · intro i
    rw [hidle i]
    trivial
  · intro h s a e s' _ _ hm hi
    exact hm.phaseTxn_self rule (fun _ hw hB => read _ hw hB) hi
  · intro i h e ph hne hi
    rw [attemptReads_snoc, if_neg hne]
    exact hi

end Rule

/-! ## Accesses stay sound -/

/-- The accesses in `rs` found versions that `tvars` has reached, and a TVar that still
has the version found has not changed. -/
def ReadsSound (tvars : ι → TVar V) (rs : List (ι × TVar V)) : Prop :=
  ∀ a ∈ rs, a.2.version ≤ (tvars a.1).version ∧
    (a.2.version = (tvars a.1).version → a.2 = tvars a.1)

omit [DecidableEq θ] in
/-- A write makes a new version. -/
theorem ReadsSound.applyEvent {tvars : ι → TVar V} {rs : List (ι × TVar V)}
    (hrs : ReadsSound tvars rs) (e : Event θ ι V R P) : ReadsSound (applyEvent tvars e) rs := by
  intro a ha
  obtain ⟨hle, heq⟩ := hrs a ha
  rcases version_applyEvent tvars e a.1 with hsame | hlt
  · rw [hsame]
    exact ⟨hle, heq⟩
  · exact ⟨by omega, fun hv => by omega⟩

/-- One step keeps the accesses of every current attempt sound. -/
theorem Move.readsSound {s s' : State θ ι V R P} {i : θ} {e : Event θ ι V R P}
    {h : List (Event θ ι V R P)} (hm : Move prog s i e s')
    (hrs : ∀ j, ReadsSound s.tvars (attemptReads j h)) (j : θ) :
    ReadsSound s'.tvars (attemptReads j (h ++ [e])) := by
  rw [hm.tvars_eq]
  intro a ha
  rw [attemptReads_snoc] at ha
  split_ifs at ha
  · cases ha
  · rcases List.mem_append.mp ha with ha | ha
    · exact (hrs j).applyEvent e a ha
    · -- the access of this very step found the TVar as it is
      cases hm with
      | @read _ tid _ _ _ _ =>
          have hfound : a = (tid, s.tvars tid) := by simpa [Event.readOf] using ha
          rw [hfound]
          exact ⟨Nat.le_refl _, fun _ => rfl⟩
      | _ => simp [Event.readOf] at ha
  · exact (hrs j).applyEvent e a ha

/-- **What has been read was there**, in every run. -/
theorem run_readsSound {ok : State θ ι V R P → Action θ P → Prop} {s₀ s : State θ ι V R P}
    {h : List (Event θ ι V R P)} (hr : Run (step prog) ok s₀ h s) :
    ∀ i, ReadsSound s.tvars (attemptReads i h) := by
  refine Run.invariant (fun h s => ∀ i, ReadsSound s.tvars (attemptReads i h)) ?_ ?_ hr
  · intro i a ha
    cases ha
  · intro h s a e s' hrs _ hs i
    exact (step_move hs).readsSound hrs i

/-! ## The body follows its accesses -/

/-- The stream `env` answers the accesses as `rs` records them. -/
def Follows (env : ℕ → ι → TVar V) (rs : List (ι × TVar V)) : Prop :=
  ∀ n, (hn : n < rs.length) → env n rs[n].1 = rs[n].2

omit [DecidableEq ι] in
/-- All reads but the last. -/
theorem Follows.snoc {env : ℕ → ι → TVar V} {rs : List (ι × TVar V)} {tid : ι} {tvar : TVar V}
    (hf : Follows env (rs ++ [(tid, tvar)])) : Follows env rs ∧ env rs.length tid = tvar := by
  constructor
  · intro n hn
    have h := hf n (by simp; omega)
    rwa [List.getElem_append_left hn] at h
  · simpa using hf rs.length (by simp)

/-- Some stream follows any list of accesses. -/
def follow (rest : ι → TVar V) (rs : List (ι × TVar V)) : ℕ → ι → TVar V :=
  fun n tid => if h : n < rs.length then rs[n].2 else rest tid

omit [DecidableEq ι] in
/-- The reads are what they have found. -/
theorem follows_follow (rest : ι → TVar V) (rs : List (ι × TVar V)) :
    Follows (follow rest rs) rs := by
  intro n hn
  rw [follow, dif_pos hn]

/-- A thread in phase `ph`, whose attempt accessed TVars as in `rs`, is where a run of
its program stands after these accesses. -/
def PhaseRun (prog : P → Body ι V R) (rs : List (ι × TVar V)) : Phase ι V R P → Prop
  | .body p cur txn =>
      ∀ env, Follows env rs →
        (prog p).exec env 0 .init = (cur.exec env rs.length txn).after rs
  | .validate p txn r _ | .acquire p txn r | .validateLocked p txn r _
  | .commitValidate p txn r _ | .commitWrite p txn r _ =>
      txn.shouldRetry = false ∧
        ∀ env, Follows env rs → (prog p).exec env 0 .init = ⟨.ok r, txn, rs⟩
  | .idle | .release _ _ => True

/-- A local operation of the body is one unfolding of `exec`. -/
theorem BodyTau.exec_eq {cur cur' : Body ι V R} {txn txn' : Transaction ι V}
    (hop : BodyTau cur txn cur' txn') (env : ℕ → ι → TVar V) (n : ℕ) :
    cur.exec env n txn = cur'.exec env n txn' := by
  cases hop with
  | written hw => exact Body.exec_readTvar_of_written env _ n hw
  | _ => rfl

/-- Where an attempt is, against the body run at once. -/
theorem phaseRun_iff (rs : List (ι × TVar V)) (ph : Phase ι V R P) :
    PhaseRun prog rs ph ↔
      PhaseTxn
        (fun p rs cur txn => ∀ env, Follows env rs →
          (prog p).exec env 0 .init = (cur.exec env rs.length txn).after rs)
        (fun p r rs txn => txn.shouldRetry = false ∧
          ∀ env, Follows env rs → (prog p).exec env 0 .init = ⟨.ok r, txn, rs⟩) rs ph := by
  cases ph <;> exact Iff.rfl

/-- Each step of an attempt is one of the body. -/
theorem attemptRule_run : AttemptRule prog
    (fun p rs cur txn => ∀ env, Follows env rs →
      (prog p).exec env 0 .init = (cur.exec env rs.length txn).after rs)
    fun p r rs txn => txn.shouldRetry = false ∧
      ∀ env, Follows env rs → (prog p).exec env 0 .init = ⟨.ok r, txn, rs⟩ where
  start := fun _ _ _ => rfl
  op := by
    intro p rs cur txn cur' txn' hop hrun env hf
    rw [hrun env hf, hop.exec_eq]
  done := by
    intro p rs r txn hflag hrun
    refine ⟨hflag, fun env hf => ?_⟩
    rw [hrun env hf, Body.exec, Result.after, List.append_nil]

/-- Every thread is in step with the run of its program. -/
theorem run_phaseRun {ok : State θ ι V R P → Action θ P → Prop} {s₀ s : State θ ι V R P}
    {h : List (Event θ ι V R P)} (hr : Run (step prog) ok s₀ h s)
    (hidle : ∀ i, s₀.phase i = .idle) (i : θ) : PhaseRun prog (attemptReads i h) (s.phase i) := by
  rw [phaseRun_iff]
  refine attemptRule_run.run ?_ hr hidle i
  intro p rs tid k txn tvar hw hrun env hf
  -- the stream answers the accesses before this one, then this one
  obtain ⟨hf, hnew⟩ := Follows.snoc hf
  rw [hrun env hf, Body.exec_readTvar_of_not_written env _ _ hw, hnew, Result.after_after,
    List.length_append, List.length_singleton]

end Stm
