/-
# `commit` is all or nothing

`commit` has two `raise` statements, the second one after some TVars may already be
overwritten.  Neither is reachable: the versions that the second `validate` checked
are checked under `_GLOBAL_LOCK`, only the holder of that lock writes, and the write
loop visits no TVar twice.  The invariant is `CommitInv`.

* `run_commitInv` : the invariant holds in every reachable state;
* `commit_all_or_nothing` : `commit` never raises, an attempt that does not commit
  leaves every TVar alone, one that does has written its whole write set, and no write of
  another thread falls between two writes of one commit.
-/
import Cocurrency.Stm.Attempt

namespace Stm

variable {θ ι V R P : Type}

/-! ## The lock -/

/-- The thread is inside the `with _GLOBAL_LOCK` block. -/
def Phase.holdsLock : Phase ι V R P → Bool
  | .validateLocked _ _ _ _ | .commitValidate _ _ _ _ | .commitWrite _ _ _ _ | .release _ _ => true
  | _ => false

/-- The thread is inside the write loop of `commit`. -/
def Phase.isWriting : Phase ι V R P → Bool
  | .commitWrite _ _ _ _ => true
  | _ => false

/-- `_GLOBAL_LOCK` is held by exactly the thread inside its block. -/
def LockInv (s : State θ ι V R P) : Prop :=
  ∀ i, (s.phase i).holdsLock = true ↔ s.globalLock = some i

/-- The lock has one holder. -/
theorem LockInv.unique {s : State θ ι V R P} (h : LockInv s) {i j : θ}
    (hi : (s.phase i).holdsLock = true) (hj : (s.phase j).holdsLock = true) : i = j := by
  have heq := ((h i).mp hi).symm.trans ((h j).mp hj)
  exact Option.some.inj heq

/-- Who writes has the lock. -/
theorem Phase.holdsLock_of_isWriting {ph : Phase ι V R P} (h : ph.isWriting = true) :
    ph.holdsLock = true := by
  cases ph <;> simp_all [Phase.isWriting, Phase.holdsLock]

/-- While a thread holds the lock outside the write loop, no thread is in the write loop. -/
theorem LockInv.not_isWriting {s : State θ ι V R P} (h : LockInv s) {i : θ}
    (hi : (s.phase i).holdsLock = true) (hno : (s.phase i).isWriting = false) (j : θ) :
    (s.phase j).isWriting = false := by
  by_contra hw
  have hj : (s.phase j).isWriting = true := by simpa using hw
  have hji := h.unique (Phase.holdsLock_of_isWriting hj) hi
  rw [hji, hno] at hj
  cases hj

variable [DecidableEq θ]

/-- The thread keeps the lock, or stays without it. -/
theorem LockInv.goto {s : State θ ι V R P} (h : LockInv s) {i : θ} {ph : Phase ι V R P}
    (hph : ph.holdsLock = (s.phase i).holdsLock) : LockInv (s.goto i ph) := by
  intro j
  by_cases hj : j = i
  · subst hj
    rw [State.phase_goto_self, State.globalLock_goto, hph]
    exact h j
  · rw [State.phase_goto_of_ne _ _ hj, State.globalLock_goto]
    exact h j

/-- The thread takes the lock when it is free. -/
theorem LockInv.acquire {s : State θ ι V R P} (h : LockInv s) {i : θ} {ph : Phase ι V R P}
    (hfree : s.globalLock = none) (hph : ph.holdsLock = true) :
    LockInv (s.setLock (some i) i ph) := by
  intro j
  by_cases hj : j = i
  · subst hj
    simp [hph]
  · rw [State.phase_setLock_of_ne _ _ _ hj, State.globalLock_setLock, h j, hfree]
    simp [Ne.symm hj]

/-- The thread gives the lock back. -/
theorem LockInv.release {s : State θ ι V R P} (h : LockInv s) {i : θ} {ph : Phase ι V R P}
    (hi : (s.phase i).holdsLock = true) (hph : ph.holdsLock = false) :
    LockInv (s.setLock none i ph) := by
  intro j
  by_cases hj : j = i
  · subst hj
    simp [hph]
  · rw [State.phase_setLock_of_ne _ _ _ hj, State.globalLock_setLock]
    constructor
    · intro hj'
      exact absurd (h.unique hj' hi) hj
    · intro hn
      cases hn

variable [DecidableEq ι] {prog : P → Body ι V R}

/-- Outside the write loop a step changes no TVar. -/
theorem Move.tvars_eq_of_not_isWriting {s s' : State θ ι V R P} {i : θ} {e : Event θ ι V R P}
    (hm : Move prog s i e s') (hi : (s.phase i).isWriting = false) : s'.tvars = s.tvars := by
  cases hm with
  | write hph _ _ =>
      rw [hph] at hi
      cases hi
  | _ => rfl

/-- **The lock** is right after every step. -/
theorem Move.lockInv {s s' : State θ ι V R P} {i : θ} {e : Event θ ι V R P}
    (hm : Move prog s i e s') (h : LockInv s) : LockInv s' := by
  cases hm with
  -- only these four transitions enter or leave the `with` block
  | acquire hph hfree => exact h.acquire hfree rfl
  | releaseReturned hph | releaseConflict hph | releaseRaised hph =>
      exact h.release (by rw [hph]; rfl) rfl
  | write hph _ _ =>
      exact h.goto (s := s) (i := i) (by rw [hph]; rfl)
  | call hph | op hph _ | read hph _ | bodyDone hph _ | bodyFlag hph _ | bodyRetry hph
  | bodyEscape hph _ | check hph _ | checkFailed hph _ | validated hph | checkLocked hph _
  | checkLockedFailed hph _ | validatedLocked hph | checkCommit hph _ | checkCommitFailed hph _
  | commitStart hph | writeRaise hph _ | writeSkip hph _ | commit hph =>
      exact h.goto (by rw [hph]; rfl)

/-! ## What the lock holder has checked -/

/-- What a phase inside the lock knows.  In the second `validate`, the entries visited
have the current version; in `commit`'s own, all have; in the write loop the entries to
come are of TVars not written yet; and `commit` has not raised. -/
def PhaseOk (s : State θ ι V R P) : Phase ι V R P → Prop
  | .validateLocked _ txn _ todo =>
      ∀ a ∈ txn.readSet.items, a ∈ todo ∨ versionOk s a.1 a.2.2 = true
  | .commitValidate _ txn _ todo =>
      (∀ a ∈ txn.readSet.items, versionOk s a.1 a.2.2 = true) ∧ ∀ a ∈ todo, a ∈ txn.readSet.items
  | .commitWrite _ txn _ todo =>
      (todo.map Prod.fst).Nodup ∧
        ∀ a ∈ todo, modifiedSinceRead txn a.1 (s.tvars a.1) = false
  | .release _ (.raised _) => False
  | _ => True

/-- The invariant of `commit`. -/
structure CommitInv (s : State θ ι V R P) : Prop where
  lock : LockInv s
  ok : ∀ i, PhaseOk s (s.phase i)

omit [DecidableEq θ] in
/-- Without the lock there is nothing to be right about. -/
theorem phaseOk_of_not_holdsLock {s : State θ ι V R P} {ph : Phase ι V R P}
    (h : ph.holdsLock = false) : PhaseOk s ph := by
  cases ph with
  | validateLocked _ _ _ _ | commitValidate _ _ _ _ | commitWrite _ _ _ _ | release _ _ => cases h
  | _ => trivial

omit [DecidableEq θ] in
/-- Only the store matters. -/
theorem PhaseOk.congr {s s' : State θ ι V R P} {ph : Phase ι V R P} (h : PhaseOk s ph)
    (ht : s'.tvars = s.tvars) (hr : s'.idToTvar = s.idToTvar) : PhaseOk s' ph := by
  have hv : ∀ tid ver, versionOk s' tid ver = versionOk s tid ver := by
    intro tid ver
    rw [versionOk, versionOk, ht, hr]
  cases ph with
  | release p out => cases out <;> exact h
  | validateLocked _ _ _ _ | commitValidate _ _ _ _ | commitWrite _ _ _ _ =>
      simpa only [PhaseOk, hv, ht] using h
  | _ => trivial

omit [DecidableEq θ] in
/-- After a full `validate`, no TVar of the write set differs from what was read. -/
theorem not_modifiedSinceRead {s : State θ ι V R P} {txn : Transaction ι V}
    (h : ∀ a ∈ txn.readSet.items, versionOk s a.1 a.2.2 = true) (tid : ι) :
    modifiedSinceRead txn tid (s.tvars tid) = false := by
  rw [modifiedSinceRead]
  cases hg : txn.readSet.get tid with
  | none => rfl
  | some a =>
      obtain ⟨v, ver⟩ := a
      have hok := h _ ((Dict.get_eq_some_iff _ _ _).mp hg)
      rw [versionOk, Bool.and_eq_true, beq_iff_eq] at hok
      simp [hok.2]

/-- One step of thread `i` keeps what its phase knows. -/
theorem Move.phaseOk_self {s s' : State θ ι V R P} {i : θ} {e : Event θ ι V R P}
    (hm : Move prog s i e s') (h : PhaseOk s (s.phase i)) : PhaseOk s' (s'.phase i) := by
  cases hm with
  | acquire hph _ =>
      rw [State.phase_setLock_self]
      exact fun a ha => Or.inl ha
  | checkLocked hph hv =>
      rw [State.phase_goto_self]
      rw [hph] at h
      intro a ha
      rcases h a ha with hin | hok
      · rcases List.mem_cons.mp hin with rfl | hrest
        · exact Or.inr hv
        · exact Or.inl hrest
      · exact Or.inr hok
  | validatedLocked hph =>
      rw [State.phase_goto_self]
      rw [hph] at h
      refine ⟨fun a ha => ?_, fun a ha => ha⟩
      rcases h a ha with hin | hok
      · cases hin
      · exact hok
  | checkCommit hph hv =>
      rw [State.phase_goto_self]
      rw [hph] at h
      exact ⟨h.1, fun a ha => h.2 a (List.mem_cons_of_mem _ ha)⟩
  | checkCommitFailed hph hv =>
      -- the check cannot fail: every entry has been checked under the lock
      rw [hph] at h
      have hok := h.1 _ (h.2 _ List.mem_cons_self)
      rw [hv] at hok
      cases hok
  | commitStart hph =>
      rw [State.phase_goto_self]
      rw [hph] at h
      exact ⟨Dict.nodup _, fun a _ => not_modifiedSinceRead h.1 a.1⟩
  | @write p txn r tid value rest hph hreg hmod =>
      rw [State.phase_store_self]
      rw [hph] at h
      obtain ⟨hnodup, hrest⟩ := h
      rw [List.map_cons, List.nodup_cons] at hnodup
      refine ⟨hnodup.2, fun a ha => ?_⟩
      -- the loop visits no TVar twice, so the write is to none of those still to come
      have hne : a.1 ≠ tid := by
        rintro rfl
        exact hnodup.1 (List.mem_map.mpr ⟨a, ha, rfl⟩)
      rw [State.tvars_store, Function.update_of_ne hne]
      exact hrest a (List.mem_cons_of_mem _ ha)
  | writeRaise hph hmod =>
      -- nor can the re-check of the loop
      rw [hph] at h
      have hok := h.2 _ List.mem_cons_self
      rw [hmod] at hok
      cases hok
  | writeSkip hph _ =>
      rw [State.phase_goto_self]
      rw [hph] at h
      obtain ⟨hnodup, hrest⟩ := h
      rw [List.map_cons, List.nodup_cons] at hnodup
      exact ⟨hnodup.2, fun a ha => hrest a (List.mem_cons_of_mem _ ha)⟩
  | checkLockedFailed _ _ | commit _ =>
      rw [State.phase_goto_self]
      trivial
  | call _ | op _ _ | read _ _ | bodyDone _ _ | bodyFlag _ _ | bodyRetry _ | bodyEscape _ _
  | check _ _ | checkFailed _ _ | validated _ =>
      rw [State.phase_goto_self]
      exact phaseOk_of_not_holdsLock rfl
  | releaseReturned _ | releaseConflict _ | releaseRaised _ =>
      rw [State.phase_setLock_self]
      exact phaseOk_of_not_holdsLock rfl

/-- While a thread holds the lock, the steps of the others leave the TVars alone. -/
theorem Move.tvars_eq_of_holdsLock {s s' : State θ ι V R P} {i j : θ} {e : Event θ ι V R P}
    (hm : Move prog s i e s') (hlock : LockInv s) (hj : (s.phase j).holdsLock = true)
    (hne : j ≠ i) : s'.tvars = s.tvars := by
  cases hm with
  | write hph _ _ =>
      have hi : (s.phase i).holdsLock = true := by rw [hph]; rfl
      exact absurd (hlock.unique hj hi) hne
  | _ => rfl

/-- **The step lemma** for commits. -/
theorem Move.commitInv {s s' : State θ ι V R P} {i : θ} {e : Event θ ι V R P}
    (hm : Move prog s i e s') (h : CommitInv s) : CommitInv s' := by
  refine ⟨hm.lockInv h.lock, fun j => ?_⟩
  by_cases hj : j = i
  · subst hj
    exact hm.phaseOk_self (h.ok j)
  · rw [hm.phase_of_ne hj]
    -- only the lock holder's phase knows something of the TVars, and only it writes
    cases hlock : (s.phase j).holdsLock with
    | false => exact phaseOk_of_not_holdsLock hlock
    | true =>
        exact (h.ok j).congr (hm.tvars_eq_of_holdsLock h.lock hlock hj) hm.idToTvar_eq

/-- No thread is inside `atomically`. -/
structure State.Quiet (s : State θ ι V R P) : Prop where
  idle : ∀ i, s.phase i = .idle
  free : s.globalLock = none

omit [DecidableEq θ] [DecidableEq ι] in
/-- A store that has just been made is quiet. -/
theorem quiet_create (values : ι → V) : (State.create values : State θ ι V R P).Quiet :=
  ⟨fun _ => rfl, rfl⟩

omit [DecidableEq θ] in
/-- When no thread is in `commit` there is nothing to be right about. -/
theorem commitInv_of_quiet {s : State θ ι V R P} (hs : s.Quiet) : CommitInv s where
  lock := fun i => by simp [hs.idle i, hs.free, Phase.holdsLock]
  ok := fun i => by simp [hs.idle i, PhaseOk]

/-- So it is in every run from a quiet state. -/
theorem run_commitInv_of_quiet {ok : State θ ι V R P → Action θ P → Prop} {s₀ s : State θ ι V R P}
    {h : List (Event θ ι V R P)} (hs₀ : s₀.Quiet) (hr : Run (step prog) ok s₀ h s) :
    CommitInv s :=
  Run.invariant (fun _ s => CommitInv s) (commitInv_of_quiet hs₀)
    (fun _ _ _ _ _ hinv _ hs => (step_move hs).commitInv hinv) hr

/-- So it is in every run. -/
theorem run_commitInv {ok : State θ ι V R P → Action θ P → Prop} {values : ι → V}
    {s : State θ ι V R P} {h : List (Event θ ι V R P)}
    (hr : Run (step prog) ok (State.create values) h s) : CommitInv s :=
  run_commitInv_of_quiet (quiet_create values) hr

/-! ## All or nothing -/

/-- A step after which `commit` raises is not taken. -/
theorem Move.not_commitRaise {s s' : State θ ι V R P} {i j : θ} {e : Event θ ι V R P}
    (hm : Move prog s i e s') (h : CommitInv s) (msg : String) : e ≠ .commitRaise j msg := by
  rintro rfl
  have hok := hm.phaseOk_self (h.ok i)
  cases hm <;> (rw [State.phase_goto_self] at hok; exact hok)

/-- No commit ever raises. -/
theorem run_not_commitRaise {ok : State θ ι V R P → Action θ P → Prop} {values : ι → V}
    {s : State θ ι V R P} {h : List (Event θ ι V R P)}
    (hr : Run (step prog) ok (State.create values) h s) (i : θ) (msg : String) :
    .commitRaise i msg ∉ h := by
  induction hr with
  | nil => simp
  | snoc hr _ hs ih =>
      rw [List.mem_append, List.mem_singleton]
      rintro (hin | heq)
      · exact ih hin
      · exact (step_move hs).not_commitRaise (run_commitInv hr) msg heq.symm

/-- The event is a write of a commit. -/
def Event.isWrite : Event θ ι V R P → Bool
  | .write _ _ _ => true
  | _ => false

/-- The write that the event is, if it is one. -/
def Event.writeOf : Event θ ι V R P → Option (ι × V)
  | .write _ tid value => some (tid, value)
  | _ => none

/-- What the current attempt of thread `i` has put into the TVars, write by write. -/
def attemptInstalled (i : θ) (h : List (Event θ ι V R P)) : List (ι × V) :=
  (attemptEvents i h).filterMap Event.writeOf

/-- The event is the return of `commit`. -/
def Event.isCommit : Event θ ι V R P → Bool
  | .commit _ _ _ _ => true
  | _ => false

/-- A thread whose current attempt has written is in the write loop, or has committed
and is on its way out of `atomically`. -/
def WroteOk (es : List (Event θ ι V R P)) (ph : Phase ι V R P) : Prop :=
  (∃ x ∈ es, x.isWrite = true) →
    ph.isWriting = true ∨
      ((∃ x ∈ es, x.isCommit = true) ∧ ((∃ p r, ph = .release p (.returned r)) ∨ ph = .idle))

/-- What the attempt has written, after a step of its thread. -/
theorem Move.wroteOk_self {s s' : State θ ι V R P} {i : θ} {e : Event θ ι V R P}
    {h : List (Event θ ι V R P)} (hm : Move prog s i e s') (hinv : CommitInv s)
    (hw : WroteOk (attemptEvents i h) (s.phase i)) :
    WroteOk (attemptEvents i (h ++ [e])) (s'.phase i) := by
  rw [attemptEvents_snoc, if_pos hm.thread_eq]
  have hraise := fun msg => hm.not_commitRaise hinv (j := i) msg
  cases hm with
  | call _ | bodyFlag _ _ | bodyRetry _ | checkFailed _ _ | releaseConflict _ =>
      rintro ⟨x, hx, -⟩
      cases hx
  | checkCommitFailed _ _ | writeRaise _ _ => exact absurd rfl (hraise _)
  | write hph _ _ | writeSkip hph _ =>
      rintro -
      left
      simp [Phase.isWriting]
  | @commit p txn r hph =>
      rintro -
      right
      refine ⟨⟨_, List.mem_append_right _ List.mem_cons_self, rfl⟩, Or.inl ⟨p, r, ?_⟩⟩
      rw [State.phase_goto_self]
  | releaseReturned hph =>
      rw [hph] at hw
      rintro ⟨x, hx, hwx⟩
      -- the release is no write, so the write is an earlier one, and `commit` has returned
      have hold : ∃ y ∈ attemptEvents i h, y.isWrite = true := by
        rcases List.mem_append.mp hx with hx | hx
        · exact ⟨x, hx, hwx⟩
        · rw [List.mem_singleton.mp hx] at hwx
          cases hwx
      rcases hw hold with hwr | ⟨⟨y, hy, hcy⟩, -⟩
      · cases hwr
      · right
        exact ⟨⟨y, List.mem_append_left _ hy, hcy⟩, Or.inr (by rw [State.phase_setLock_self])⟩
  | op hph _ | read hph _ | bodyDone hph _ | bodyEscape hph _ | check hph _ | validated hph
  | acquire hph _ | checkLocked hph _ | checkLockedFailed hph _ | validatedLocked hph
  | checkCommit hph _ | commitStart hph | releaseRaised hph =>
      -- in these phases the attempt has not written, and the event is no write
      rw [hph] at hw
      rintro ⟨x, hx, hwx⟩
      exfalso
      rcases List.mem_append.mp hx with hx | hx
      · rcases hw ⟨x, hx, hwx⟩ with hwr | ⟨-, ⟨p, r, hrel⟩ | hidle⟩
        · cases hwr
        · cases hrel
        · cases hidle
      · rw [List.mem_singleton.mp hx] at hwx
        cases hwx

/-- What the attempts have written, in every run. -/
theorem run_wroteOk {ok : State θ ι V R P → Action θ P → Prop} {values : ι → V}
    {s : State θ ι V R P} {h : List (Event θ ι V R P)}
    (hr : Run (step prog) ok (State.create values) h s) (i : θ) :
    WroteOk (attemptEvents i h) (s.phase i) := by
  refine run_ownSteps (fun i h ph => WroteOk (attemptEvents i h) ph) ?_ ?_ ?_ hr i
  · rintro i ⟨x, hx, -⟩
    cases hx
  · intro h s a e s' hr _ hm hw
    exact hm.wroteOk_self (run_commitInv hr) hw
  · intro i h e ph hne hw
    rw [attemptEvents_snoc, if_neg hne]
    exact hw

/-! ### What a commit has written -/

omit [DecidableEq ι] in
/-- An event with which an attempt of thread `i` begins. -/
theorem attemptInstalled_begins {i : θ} {e : Event θ ι V R P} (hi : e.thread = i)
    (hbegins : e.beginsAttempt = true) (h : List (Event θ ι V R P)) :
    attemptInstalled i (h ++ [e]) = [] := by
  rw [attemptInstalled, attemptEvents_snoc, if_pos hi, if_pos hbegins]
  rfl

omit [DecidableEq ι] in
/-- An event of thread `i` that is no write. -/
theorem attemptInstalled_quiet {i : θ} {e : Event θ ι V R P} (hi : e.thread = i)
    (hbegins : e.beginsAttempt = false) (hwrite : e.writeOf = none) (h : List (Event θ ι V R P)) :
    attemptInstalled i (h ++ [e]) = attemptInstalled i h := by
  rw [attemptInstalled, attemptEvents_snoc, if_pos hi, hbegins, if_neg Bool.false_ne_true,
    List.filterMap_append, List.filterMap_cons, hwrite]
  exact List.append_nil _

/-- What an attempt has written: in the write loop all but what is to come, before it nothing. -/
def WritesOk (ws : List (ι × V)) : Phase ι V R P → Prop
  | .commitWrite _ txn _ todo => ws ++ todo = txn.writeSet.items
  | .release _ _ | .idle => True
  | _ => ws = []

/-- One step of thread `i`, if all TVars are in the registry. -/
theorem Move.writesOk_self {s s' : State θ ι V R P} {i : θ} {e : Event θ ι V R P}
    {h : List (Event θ ι V R P)} (hm : Move prog s i e s') (hreg : ∀ tid, s.idToTvar tid = true)
    (hw : WritesOk (attemptInstalled i h) (s.phase i)) :
    WritesOk (attemptInstalled i (h ++ [e])) (s'.phase i) := by
  have hi := hm.thread_eq
  cases hm with
  | call _ | bodyFlag _ _ | bodyRetry _ | checkFailed _ _ =>
      rw [State.phase_goto_self, attemptInstalled_begins hi rfl]
      rfl
  | releaseConflict _ =>
      rw [State.phase_setLock_self, attemptInstalled_begins hi rfl]
      rfl
  | bodyEscape _ _ | checkLockedFailed _ _ | checkCommitFailed _ _ | writeRaise _ _ | commit _ =>
      rw [State.phase_goto_self]
      trivial
  | releaseReturned _ | releaseRaised _ =>
      rw [State.phase_setLock_self]
      trivial
  | op hph _ | read hph _ | bodyDone hph _ | check hph _ | validated hph | checkLocked hph _
  | validatedLocked hph | checkCommit hph _ =>
      rw [hph] at hw
      rw [State.phase_goto_self, attemptInstalled_quiet hi rfl rfl]
      exact hw
  | acquire hph _ =>
      rw [hph] at hw
      rw [State.phase_setLock_self, attemptInstalled_quiet hi rfl rfl]
      exact hw
  | commitStart hph =>
      rw [hph] at hw
      have hnone : attemptInstalled i h = [] := hw
      rw [State.phase_goto_self, attemptInstalled_quiet hi rfl rfl, hnone]
      rfl
  | @write p txn r tid value rest hph _ _ =>
      rw [hph] at hw
      have hall : attemptInstalled i h ++ (tid, value) :: rest = txn.writeSet.items := hw
      have hsnoc : attemptInstalled i (h ++ [.write i tid value]) =
          attemptInstalled i h ++ [(tid, value)] := by
        rw [attemptInstalled, attemptEvents_snoc, if_pos hi]
        exact List.filterMap_append
      rw [State.phase_store_self, hsnoc]
      show attemptInstalled i h ++ [(tid, value)] ++ rest = txn.writeSet.items
      rw [List.append_assoc]
      exact hall
  | writeSkip hph hskip =>
      rw [hreg] at hskip
      cases hskip

/-- The registry stays as it is. -/
theorem run_idToTvar {ok : State θ ι V R P → Action θ P → Prop} {s₀ s : State θ ι V R P}
    {h : List (Event θ ι V R P)} (hr : Run (step prog) ok s₀ h s) : s.idToTvar = s₀.idToTvar :=
  Run.invariant (fun _ s => s.idToTvar = s₀.idToTvar) rfl
    (fun _ _ _ _ _ heq _ hs => (step_move hs).idToTvar_eq.trans heq) hr

/-- It holds in every reachable state. -/
theorem run_writesOk {ok : State θ ι V R P → Action θ P → Prop} {values : ι → V}
    {s : State θ ι V R P} {h : List (Event θ ι V R P)}
    (hr : Run (step prog) ok (State.create values) h s) (i : θ) :
    WritesOk (attemptInstalled i h) (s.phase i) := by
  refine run_ownSteps (fun i h ph => WritesOk (attemptInstalled i h) ph) ?_ ?_ ?_ hr i
  · intro i
    trivial
  · intro h s a e s' hr _ hm hw
    exact hm.writesOk_self (fun tid => by rw [run_idToTvar hr]; rfl) hw
  · intro i h e ph hne hw
    rw [attemptInstalled, attemptEvents_snoc, if_neg hne]
    exact hw

/-- A step that gives an attempt up is taken outside the write loop, by a thread that
has not committed. -/
theorem Move.phase_of_givesUp {s s' : State θ ι V R P} {i : θ} {e : Event θ ι V R P}
    (hm : Move prog s i e s') (hg : e.givesUp = true) :
    (s.phase i).isWriting = false ∧ (∀ p r, s.phase i ≠ .release p (.returned r)) ∧
      s.phase i ≠ .idle := by
  cases hm with
  | bodyFlag hph _ | bodyRetry hph | bodyEscape hph _ | checkFailed hph _ | releaseConflict hph
  | releaseRaised hph => simp [hph, Phase.isWriting]
  | _ => cases hg

omit [DecidableEq θ] in
/-- Only writes change the store. -/
theorem applyEvent_of_not_isWrite {e : Event θ ι V R P} (h : e.isWrite = false)
    (tvars : ι → TVar V) : applyEvent tvars e = tvars := by
  cases e with
  | write _ _ _ => cases h
  | _ => rfl

/-- **The store** is what the writes have made of it. -/
theorem run_tvars_eq {ok : State θ ι V R P → Action θ P → Prop} {s₀ s : State θ ι V R P}
    {h : List (Event θ ι V R P)} (hr : Run (step prog) ok s₀ h s) :
    s.tvars = h.foldl applyEvent s₀.tvars := by
  induction hr with
  | nil => rfl
  | snoc _ _ hs ih =>
      rw [List.foldl_append, List.foldl_cons, List.foldl_nil, ← ih, (step_move hs).tvars_eq]

/-- **All or nothing.**  In every run of `atomically` calls over `create_tvar` TVars:
`commit` never raises; when a step gives an attempt up (a retry signal, a failed
`validate`, an exception that leaves `atomically`), no event of that attempt has had an
effect on any TVar; when a `commit` returns, the attempt has written its whole write set, each
entry once and in order; when a write of a commit lands, every other thread whose current
attempt has written has already returned from its `commit`; and the TVars hold what the
writes in the history make of the initial ones, so there is no other effect. -/
theorem commit_all_or_nothing {values : ι → V} {s : State θ ι V R P}
    {h : List (Event θ ι V R P)}
    (hr : Run (step prog) anyStep (State.create values) h s) :
    (∀ i msg, .commitRaise i msg ∉ h) ∧
    (∀ a e s', step prog s a = some (e, s') → e.givesUp = true →
      ∀ x ∈ attemptEvents a.thread h ++ [e], ∀ tvars, applyEvent tvars x = tvars) ∧
    (∀ a i p txn r s', step prog s a = some (.commit i p txn r, s') →
      attemptInstalled i h = txn.writeSet.items) ∧
    (∀ a e s', step prog s a = some (e, s') → e.isWrite = true →
      ∀ j, j ≠ a.thread → (∃ x ∈ attemptEvents j h, x.isWrite = true) →
        ∃ x ∈ attemptEvents j h, x.isCommit = true) ∧
    s.tvars = h.foldl applyEvent fun tid => ⟨values tid, 0⟩ := by
  refine ⟨run_not_commitRaise hr, ?_, ?_, ?_, run_tvars_eq hr⟩
  · intro a e s' hs hg x hx tvars
    apply applyEvent_of_not_isWrite
    obtain ⟨hnw, hnrel, hnidle⟩ := (step_move hs).phase_of_givesUp hg
    rcases List.mem_append.mp hx with hx | hx
    · by_contra hwx
      rcases run_wroteOk hr a.thread ⟨x, hx, by simpa using hwx⟩ with hw | ⟨-, ⟨p, r, hrel⟩ | hidle⟩
      · rw [hnw] at hw
        cases hw
      · exact hnrel p r hrel
      · exact hnidle hidle
    · rw [List.mem_singleton.mp hx]
      cases e <;> first | rfl | cases hg
  · intro a i p txn r s' hs
    have hm := step_move hs
    obtain rfl : i = a.thread := hm.thread_eq
    cases hm with
    | commit hph =>
        have hw := run_writesOk hr a.thread
        rw [hph] at hw
        exact (List.append_nil _).symm.trans hw
  · intro a e s' hs hwe j hj hwrote
    rcases run_wroteOk hr j hwrote with hw | ⟨hc, -⟩
    · -- two threads would hold the lock
      have hm := step_move hs
      cases hm with
      | write hph _ _ =>
          have hi : (s.phase a.thread).holdsLock = true := by rw [hph]; rfl
          exact absurd ((run_commitInv hr).lock.unique (Phase.holdsLock_of_isWriting hw) hi) hj
      | _ => cases hwe
    · exact hc

/-- Add one to a TVar and return its old value. -/
def increment : Body Unit ℕ ℕ := .readTvar () fun v => .writeTvar () (v + 1) (.done v)

/-- Two threads add one each, the second one reading before the first has written: its
first attempt fails to validate. -/
def incrementSchedule : List (Action Bool Unit) :=
  [.call false (), .call true (), .sched true] ++ List.replicate 13 (.sched false) ++
    List.replicate 16 (.sched true)

/-- Two increments, one of them with a second attempt. -/
theorem commit_all_or_nothing_increment :
    ∃ (h : List (Event Bool Unit ℕ ℕ Unit)) (s : State Bool Unit ℕ ℕ Unit),
      Run (step fun _ => increment) anyStep (State.create fun _ => 0) h s ∧
      (h.filter Event.isCommit).length = 2 ∧ (h.filter Event.givesUp).length = 1 ∧
      (∀ i msg, .commitRaise i msg ∉ h) ∧ s.tvars = h.foldl applyEvent fun _ => ⟨0, 0⟩ := by
  have hr := run_of_replay (step fun _ => increment) (s := State.create fun _ => 0)
    incrementSchedule rfl
  obtain ⟨hraise, -, -, -, htvars⟩ := commit_all_or_nothing hr
  exact ⟨_, _, hr, rfl, rfl, hraise, htvars⟩

end Stm
