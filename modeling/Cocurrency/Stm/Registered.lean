/-
# What the registry decides (`python/stm/stm_model.py`)

`validate` and `commit` find a TVar by its `id` in the registry `_id_to_tvar`, and only
`create_tvar` puts one there (`_register`, which assigns to an undefined name, is called by
nobody).  A TVar made by `TVar(v)` can be read and written in a body all the same; but its write is
skipped by `commit`, and having read it makes `validate` fail, at every attempt.

* `run_commit` : a commit installs the writes to the registered TVars of its write set;
* `commitsFirst_iff` : alone, an attempt commits just if the TVars of its read set are registered;
* `committed_writes_iff` : both, with the write set as the last values that the body wrote.
-/
import Mathlib.Logic.Relation
import Cocurrency.Stm.ReadSet
import Cocurrency.Stm.Snapshot

namespace Stm

variable {θ ι V R P : Type}

/-- TVars of which those in `registered` are made by `create_tvar` and the others by `TVar`. -/
def State.made (values : ι → V) (registered : ι → Bool) : State θ ι V R P :=
  { State.create values with idToTvar := registered }

theorem quiet_made (values : ι → V) (registered : ι → Bool) :
    (State.made values registered : State θ ι V R P).Quiet :=
  ⟨fun _ => rfl, rfl⟩

/-! ## The writes of a body -/

section Writes

variable [DecidableEq ι]

/-- The last value written to a TVar. -/
def lastWrite (log : List (ι × V)) (tid : ι) : Option V := log.reverse.lookup tid

theorem lastWrite_snoc (log : List (ι × V)) (tid : ι) (value : V) (t : ι) :
    lastWrite (log ++ [(tid, value)]) t = if t = tid then some value else lastWrite log t := by
  rw [lastWrite, List.reverse_append, List.reverse_singleton, List.singleton_append,
    EntryList.lookup_cons_eq_ite, lastWrite]

/-- A dictionary has one value for each key, so the last one is the one. -/
theorem lastWrite_items (writes : Dict ι V) (tid : ι) :
    lastWrite writes.items tid = writes.get tid := by
  have hnodup : (writes.items.reverse.map Prod.fst).Nodup := by
    rw [List.map_reverse, List.nodup_reverse]
    exact writes.nodup
  ext v
  rw [lastWrite, EntryList.lookup_eq_some_iff_mem _ hnodup, List.mem_reverse,
    Dict.get_eq_some_iff]

theorem lastWrite_eq_none_iff (log : List (ι × V)) (tid : ι) :
    lastWrite log tid = none ↔ ∀ w ∈ log, w.1 ≠ tid := by
  rw [lastWrite, List.lookup_eq_none_iff]
  constructor
  · intro hno w hw heq
    exact (bne_iff_ne.mp (hno w (List.mem_reverse.mpr hw))) heq.symm
  · intro hno w hw
    exact bne_iff_ne.mpr (Ne.symm (hno w (List.mem_reverse.mp hw)))

/-- The calls of `write_tvar` in the run of a body, after those in `log`.  When `_or_else` restores
the write set, only those that made it are left. -/
def Body.writes (env : ℕ → ι → TVar V) :
    Body ι V R → ℕ → Transaction ι V → List (ι × V) → List (ι × V)
  | .done _, _, _, log => log
  | .raise _, _, _, log => log
  | .readTvar tid k, n, txn, log =>
      match txn.writeSet.get tid with
      | some v => (k v).writes env n txn log
      | none =>
          (k (env n tid).value).writes env (n + 1) (txn.readTvar tid (env n tid)).2 log
  | .writeTvar tid value k, n, txn, log =>
      k.writes env n (txn.writeTvar tid value) (log ++ [(tid, value)])
  | .retryFlag k, n, txn, log => k.writes env n txn.retry log
  | .shouldRetry k, n, txn, log => (k txn.shouldRetry).writes env n txn log
  | .copySets k, n, txn, log => (k txn.readSet txn.writeSet).writes env n txn log
  | .restoreSets reads writes k, n, txn, _ =>
      k.writes env n (txn.restore reads writes) writes.items

/-- The write set has the last value written to each TVar. -/
theorem Body.get_writeSet_exec (env : ℕ → ι → TVar V) (b : Body ι V R) (n : ℕ)
    {txn : Transaction ι V} {log : List (ι × V)}
    (hlog : ∀ tid, txn.writeSet.get tid = lastWrite log tid) (tid : ι) :
    (b.exec env n txn).txn.writeSet.get tid = lastWrite (b.writes env n txn log) tid := by
  induction b generalizing n txn log with
  | done r => exact hlog tid
  | raise e => exact hlog tid
  | readTvar t k ih =>
      cases hw : txn.writeSet.get t with
      | some v =>
          rw [exec_readTvar_of_written env k n hw, Body.writes, hw]
          exact ih v n hlog
      | none =>
          have hkeep : ∀ tid, (txn.readTvar t (env n t)).2.writeSet.get tid =
              lastWrite log tid := by
            intro tid
            rw [Transaction.writeSet_readTvar]
            exact hlog tid
          rw [exec_readTvar_of_not_written env k n hw, Body.writes, hw]
          exact ih _ (n + 1) hkeep
  | writeTvar t value k ih =>
      apply ih n
      intro tid
      rw [lastWrite_snoc, ← hlog tid]
      exact Dict.get_set _ _ _ _
  | retryFlag k ih => exact ih n hlog
  | shouldRetry k ih => exact ih _ n hlog
  | copySets k ih => exact ih _ _ n hlog
  | restoreSets reads writes k ih => exact ih n fun tid => (lastWrite_items writes tid).symm

/-- The TVars after a commit of an attempt that wrote as in `log`: each TVar written has the last
value written to it, under the next version, and the others are as they were. -/
def installed (store : ι → TVar V) (log : List (ι × V)) (tid : ι) : TVar V :=
  match lastWrite log tid with
  | some value => ⟨value, (store tid).version + 1⟩
  | none => store tid

/-- The writes of a write set go to different TVars. -/
theorem installWrites_eq (store : ι → TVar V) (ws : List (ι × V))
    (hnodup : (ws.map Prod.fst).Nodup) (tid : ι) :
    installWrites store ws tid =
      match ws.lookup tid with
      | some value => ⟨value, (store tid).version + 1⟩
      | none => store tid := by
  induction ws generalizing store with
  | nil => rfl
  | cons w ws ih =>
      rw [List.map_cons, List.nodup_cons] at hnodup
      obtain ⟨t, value⟩ := w
      rw [installWrites, List.foldl_cons, ← installWrites, EntryList.lookup_cons_eq_ite]
      by_cases ht : tid = t
      · subst ht
        rw [installWrites_of_notMem _ _ hnodup.1, if_pos rfl, installWrite]
        exact Function.update_self ..
      · have hsame : installWrite store (t, value) tid = store tid := Function.update_of_ne ht ..
        rw [ih _ hnodup.2, if_neg ht, hsame]

/-- What `commit` makes of a TVar when it skips the writes that are not to registered ones. -/
theorem installWrites_registered (store : ι → TVar V) (registered : ι → Bool) (writes : Dict ι V)
    (tid : ι) :
    installWrites store (writes.items.filter fun w => registered w.1) tid =
      match writes.get tid with
      | some value => if registered tid then ⟨value, (store tid).version + 1⟩ else store tid
      | none => store tid := by
  have hnodup : ((writes.items.filter fun w => registered w.1).map Prod.fst).Nodup :=
    writes.nodup.sublist (List.filter_sublist.map Prod.fst)
  have hlookup : (writes.items.filter fun w => registered w.1).lookup tid =
      if registered tid then writes.get tid else none := by
    ext value
    rw [EntryList.lookup_eq_some_iff_mem _ hnodup, List.mem_filter, ← Dict.get_eq_some_iff]
    cases registered tid <;> simp
  rw [installWrites_eq _ _ hnodup, hlookup]
  cases registered tid <;> cases writes.get tid <;> rfl

/-- Installing the registered ones of the writes installs them all just if they are all
registered. -/
theorem installWrites_filter_iff (store : ι → TVar V) (registered : ι → Bool) {writes : Dict ι V}
    {log : List (ι × V)} (hlog : ∀ tid, writes.get tid = lastWrite log tid) :
    installWrites store (writes.items.filter fun w => registered w.1) = installed store log ↔
      ∀ w ∈ log, registered w.1 = true := by
  constructor
  · intro heq w hw
    -- a write that is skipped leaves the version as it was
    by_contra hno
    have hwritten : lastWrite log w.1 ≠ none := by
      rw [Ne, lastWrite_eq_none_iff]
      exact fun hall => hall w hw rfl
    obtain ⟨value, hvalue⟩ := Option.ne_none_iff_exists'.mp hwritten
    have htid := congrFun heq w.1
    rw [installWrites_registered, hlog, installed, hvalue] at htid
    simp only [if_neg hno] at htid
    have hversion := congrArg TVar.version htid
    simp at hversion
  · intro hall
    funext tid
    rw [installWrites_registered, hlog, installed]
    cases hlast : lastWrite log tid with
    | none => rfl
    | some value =>
        have hsome : lastWrite log tid ≠ none := by
          rw [hlast]
          exact Option.some_ne_none value
        rw [Ne, lastWrite_eq_none_iff] at hsome
        push Not at hsome
        obtain ⟨w, hw, rfl⟩ := hsome
        exact if_pos (hall w hw)

end Writes

/-! ## What a commit installs -/

variable [DecidableEq θ] [DecidableEq ι] {prog : P → Body ι V R}

omit [DecidableEq θ] [DecidableEq ι] in
/-- Only thread `i` writes in a history that grows by an event. -/
theorem only_writes_snoc {h : List (Event θ ι V R P)} {e : Event θ ι V R P} {i : θ}
    (hwrites : ∀ j tid value, .write j tid value ∈ h → j = i)
    (hwrite : ∀ j tid value, e = .write j tid value → j = i) :
    ∀ j tid value, .write j tid value ∈ h ++ [e] → j = i := by
  intro j tid value hmem
  rcases List.mem_append.mp hmem with hmem | hmem
  · exact hwrites j tid value hmem
  · exact hwrite j tid value (List.mem_singleton.mp hmem).symm

/-- Thread `i` is in the write loop, with `todo` still to do, which it has begun in the state `s₁`;
no other thread has written since. -/
def WritingSince (prog : P → Body ι V R) (ok : State θ ι V R P → Action θ P → Prop)
    (s₀ : State θ ι V R P) (h : List (Event θ ι V R P)) (s : State θ ι V R P) (i : θ) (p : P)
    (txn : Transaction ι V) (r : R) (todo : List (ι × V)) : Prop :=
  ∃ h₁ s₁ h₂ done, h = h₁ ++ .commitStart i p txn r :: h₂ ∧ Run (step prog) ok s₀ h₁ s₁ ∧
    s₁.phase i = .commitValidate p txn r [] ∧ (∀ j tid value, .write j tid value ∈ h₂ → j = i) ∧
    txn.writeSet.items = done ++ todo ∧
    s.tvars = installWrites s₁.tvars (done.filter fun w => s₀.idToTvar w.1)

theorem WritingSince.snoc {ok : State θ ι V R P → Action θ P → Prop} {s₀ s s' : State θ ι V R P}
    {h : List (Event θ ι V R P)} {i : θ} {p : P} {txn : Transaction ι V} {r : R}
    {todo : List (ι × V)} {e : Event θ ι V R P}
    (hsince : WritingSince prog ok s₀ h s i p txn r todo)
    (hwrite : ∀ j tid value, e = .write j tid value → j = i) (htvars : s'.tvars = s.tvars) :
    WritingSince prog ok s₀ (h ++ [e]) s' i p txn r todo := by
  obtain ⟨h₁, s₁, h₂, done, rfl, hr₁, hph₁, hwrites, hitems, hinstalled⟩ := hsince
  exact ⟨h₁, s₁, h₂ ++ [e], done, by simp, hr₁, hph₁, only_writes_snoc hwrites hwrite, hitems,
    htvars.trans hinstalled⟩

/-- The step of the thread itself. -/
theorem Move.writingSince_self {ok : State θ ι V R P → Action θ P → Prop}
    {s₀ s s' : State θ ι V R P} {h : List (Event θ ι V R P)} {i : θ} {e : Event θ ι V R P}
    (hm : Move prog s i e s') (hr : Run (step prog) ok s₀ h s)
    (ih : ∀ p txn r todo, s.phase i = .commitWrite p txn r todo →
      WritingSince prog ok s₀ h s i p txn r todo)
    {p : P} {txn : Transaction ι V} {r : R} {todo : List (ι × V)}
    (hi : s'.phase i = .commitWrite p txn r todo) :
    WritingSince prog ok s₀ (h ++ [e]) s' i p txn r todo := by
  have hregistry : s.idToTvar = s₀.idToTvar := run_idToTvar hr
  cases hm with
  | commitStart hph =>
      rw [State.phase_goto_self] at hi
      cases hi
      exact ⟨h, s, [], [], rfl, hr, hph, by simp, rfl, rfl⟩
  | @write p' txn' r' tid value rest hph hreg _ =>
      rw [State.phase_store_self] at hi
      cases hi
      obtain ⟨h₁, s₁, h₂, done, rfl, hr₁, hph₁, hwrites, hitems, hinstalled⟩ := ih _ _ _ _ hph
      refine ⟨h₁, s₁, h₂ ++ [.write i tid value], done ++ [(tid, value)], by simp, hr₁, hph₁,
        only_writes_snoc hwrites ?_, by simpa using hitems, ?_⟩
      · rintro j t v ⟨⟩
        rfl
      · have hkept : ([(tid, value)].filter fun w => s₀.idToTvar w.1) = [(tid, value)] := by
          rw [← hregistry]
          simp [hreg]
        rw [State.tvars_store, hinstalled, List.filter_append, hkept, installWrites_append]
        rfl
  | @writeSkip p' txn' r' tid value rest hph hreg =>
      rw [State.phase_goto_self] at hi
      cases hi
      obtain ⟨h₁, s₁, h₂, done, rfl, hr₁, hph₁, hwrites, hitems, hinstalled⟩ := ih _ _ _ _ hph
      refine ⟨h₁, s₁, h₂ ++ [.tau i], done ++ [(tid, value)], by simp, hr₁, hph₁,
        only_writes_snoc hwrites ?_, by simpa using hitems, ?_⟩
      · rintro j t v ⟨⟩
      · have hdropped : ([(tid, value)].filter fun w => s₀.idToTvar w.1) = [] := by
          rw [← hregistry]
          simp [hreg]
        rw [State.tvars_goto, hinstalled, List.filter_append, hdropped, List.append_nil]
  | acquire _ _ | releaseReturned _ | releaseConflict _ | releaseRaised _ =>
      rw [State.phase_setLock_self] at hi
      cases hi
  | call _ | op _ _ | read _ _ | bodyDone _ _ | bodyFlag _ _ | bodyRetry _ | bodyEscape _ _
  | check _ _ | checkFailed _ _ | validated _ | checkLocked _ _ | checkLockedFailed _ _
  | validatedLocked _ | checkCommit _ _ | checkCommitFailed _ _ | writeRaise _ _ | commit _ =>
      rw [State.phase_goto_self] at hi
      cases hi

theorem run_writingSince {ok : State θ ι V R P → Action θ P → Prop} {s₀ s : State θ ι V R P}
    {h : List (Event θ ι V R P)} (hs₀ : s₀.Quiet) (hr : Run (step prog) ok s₀ h s) (i : θ) :
    ∀ p txn r todo, s.phase i = .commitWrite p txn r todo →
      WritingSince prog ok s₀ h s i p txn r todo := by
  induction hr with
  | nil =>
      intro p txn r todo hi
      rw [hs₀.idle i] at hi
      cases hi
  | @snoc h s s' a e hr hok hs ih =>
      intro p txn r todo hi
      have hm := step_move hs
      by_cases hmover : i = a.thread
      · subst hmover
        exact hm.writingSince_self hr ih hi
      · -- this thread holds the lock, so the step of another one writes nothing
        rw [hm.phase_of_ne hmover] at hi
        have hlock := (run_commitInv_of_quiet hs₀ hr).lock
        have hholds : (s.phase i).holdsLock = true := by
          rw [hi]
          rfl
        apply (ih p txn r todo hi).snoc _ (hm.tvars_eq_of_holdsLock hlock hholds hmover)
        rintro j tid value rfl
        cases hm with
        | write hph _ _ => exact absurd (hlock.unique hholds (by rw [hph]; rfl)) hmover

/-- **What a commit installs.**  The last commit of the thread began in some state `s₁`; no other
thread has written since, and the TVars are those of `s₁` with the writes of its write set that
are to registered TVars. -/
theorem run_commit {ok : State θ ι V R P → Action θ P → Prop} {s₀ s s' : State θ ι V R P}
    {h : List (Event θ ι V R P)} (hs₀ : s₀.Quiet) (hr : Run (step prog) ok s₀ h s)
    {a : Action θ P} {i : θ} {p : P} {txn : Transaction ι V} {r : R}
    (hs : step prog s a = some (.commit i p txn r, s')) :
    ∃ h₁ s₁ h₂, h = h₁ ++ .commitStart i p txn r :: h₂ ∧ Run (step prog) ok s₀ h₁ s₁ ∧
      s₁.phase i = .commitValidate p txn r [] ∧ (∀ j tid value, .write j tid value ∈ h₂ → j = i) ∧
      s'.tvars = installWrites s₁.tvars (txn.writeSet.items.filter fun w => s₀.idToTvar w.1) := by
  cases step_move hs with
  | commit hph =>
      obtain ⟨h₁, s₁, h₂, done, hsplit, hr₁, hph₁, hwrites, hitems, hinstalled⟩ :=
        run_writingSince hs₀ hr _ _ _ _ _ hph
      rw [List.append_nil] at hitems
      rw [← hitems] at hinstalled
      exact ⟨h₁, s₁, h₂, hsplit, hr₁, hph₁, hwrites, hinstalled⟩

/-- What the attempt of thread `i` has written: the body's calls of `write_tvar`, given the TVars
that its accesses found. -/
def attemptWrites (prog : P → Body ι V R) (p : P) (i : θ) (h : List (Event θ ι V R P))
    (store : ι → TVar V) : List (ι × V) :=
  (prog p).writes (follow store (attemptReads i h)) 0 .init []

/-- A commit gives the TVars that its attempt wrote the last values written, and changes nothing
else, just if they are all registered. -/
theorem commit_installs_iff {ok : State θ ι V R P → Action θ P → Prop} {s₀ s s' : State θ ι V R P}
    {h : List (Event θ ι V R P)} (hs₀ : s₀.Quiet) (hr : Run (step prog) ok s₀ h s)
    {a : Action θ P} {i : θ} {p : P} {txn : Transaction ι V} {r : R}
    (hs : step prog s a = some (.commit i p txn r, s')) :
    ∃ h₁ s₁ h₂, h = h₁ ++ .commitStart i p txn r :: h₂ ∧ Run (step prog) ok s₀ h₁ s₁ ∧
      (∀ j tid value, .write j tid value ∈ h₂ → j = i) ∧
      (s'.tvars = installed s₁.tvars (attemptWrites prog p i h s₁.tvars) ↔
        ∀ w ∈ attemptWrites prog p i h s₁.tvars, s₀.idToTvar w.1 = true) := by
  obtain ⟨h₁, s₁, h₂, hsplit, hr₁, -, hwrites, hinstalled⟩ := run_commit hs₀ hr hs
  refine ⟨h₁, s₁, h₂, hsplit, hr₁, hwrites, ?_⟩
  have hphase := run_phaseRun hr hs₀.idle i
  cases step_move hs with
  | commit hph =>
      rw [hph] at hphase
      have hexec := hphase.2 _ (follows_follow s₁.tvars _)
      have hlog : ∀ tid, txn.writeSet.get tid =
          lastWrite (attemptWrites prog p a.thread h s₁.tvars) tid := by
        intro tid
        rw [attemptWrites, ← Body.get_writeSet_exec _ _ _ (fun _ => rfl), hexec]
      rw [hinstalled]
      exact installWrites_filter_iff s₁.tvars s₀.idToTvar hlog

/-! ## A transaction that runs alone -/

/-- A step of thread `i` that does not begin an attempt. -/
def Within (prog : P → Body ι V R) (i : θ) (s s' : State θ ι V R P) : Prop :=
  ∃ e, step prog s (.sched i) = some (e, s') ∧ e.beginsAttempt = false

/-- Thread `i` calls `atomically` with program `p`, alone moves from there, and returns without a
second attempt. -/
def CommitsFirst (prog : P → Body ι V R) (s : State θ ι V R P) (i : θ) (p : P) : Prop :=
  ∃ s₁ r s', Relation.ReflTransGen (Within prog i) (s.goto i (attempt prog p)) s₁ ∧
    step prog s₁ (.sched i) = some (.returned i p r, s')

section Alone

variable {s : State θ ι V R P} {i : θ} {p : P}

omit [DecidableEq ι] in
@[simp] theorem State.goto_goto (s : State θ ι V R P) (i : θ) (ph ph' : Phase ι V R P) :
    (s.goto i ph).goto i ph' = s.goto i ph' := by
  rw [State.goto, State.goto, State.goto, Function.update_idem]

theorem step_goto_body (cur : Body ι V R) (txn : Transaction ι V) :
    step prog (s.goto i (.body p cur txn)) (.sched i) =
      some (stepBody prog (s.goto i (.body p cur txn)) i p txn cur) := by
  rw [step, advance, State.phase_goto_self]

/-- Alone, the thread runs its body to the end. -/
theorem within_body (cur : Body ι V R) (n : ℕ) (txn : Transaction ι V) {r : R}
    (hok : (cur.exec (fun _ => s.tvars) n txn).outcome = .ok r)
    (hflag : (cur.exec (fun _ => s.tvars) n txn).txn.shouldRetry = false) :
    Relation.ReflTransGen (Within prog i) (s.goto i (.body p cur txn))
      (s.goto i (.validate p (cur.exec (fun _ => s.tvars) n txn).txn r
        (cur.exec (fun _ => s.tvars) n txn).txn.readSet.items)) := by
  induction cur generalizing n txn with
  | done r' =>
      cases hok
      have hlower : txn.shouldRetry = false := hflag
      apply Relation.ReflTransGen.single
      refine ⟨.tau i, ?_, rfl⟩
      rw [step_goto_body, stepBody, hlower]
      simp [Body.exec]
  | raise e => cases hok
  | readTvar tid k ih =>
      cases hw : txn.writeSet.get tid with
      | some v =>
          rw [Body.exec_readTvar_of_written _ k n hw] at hok hflag ⊢
          apply Relation.ReflTransGen.head _ (ih v n txn hok hflag)
          refine ⟨.tau i, ?_, rfl⟩
          simp only [step_goto_body, stepBody, hw, State.goto_goto]
      | none =>
          rw [Body.exec_readTvar_of_not_written _ k n hw] at hok hflag ⊢
          apply Relation.ReflTransGen.head _ (ih _ (n + 1) _ hok hflag)
          refine ⟨.read i tid (s.tvars tid), ?_, rfl⟩
          simp only [step_goto_body, stepBody, hw, State.goto_goto, State.tvars_goto]
  | writeTvar tid value k ih =>
      apply Relation.ReflTransGen.head _ (ih n _ hok hflag)
      refine ⟨.tau i, ?_, rfl⟩
      rw [step_goto_body, stepBody, State.goto_goto]
  | retryFlag k ih =>
      apply Relation.ReflTransGen.head _ (ih n _ hok hflag)
      refine ⟨.tau i, ?_, rfl⟩
      rw [step_goto_body, stepBody, State.goto_goto]
  | shouldRetry k ih =>
      apply Relation.ReflTransGen.head _ (ih _ n _ hok hflag)
      refine ⟨.tau i, ?_, rfl⟩
      rw [step_goto_body, stepBody, State.goto_goto]
  | copySets k ih =>
      apply Relation.ReflTransGen.head _ (ih _ _ n _ hok hflag)
      refine ⟨.tau i, ?_, rfl⟩
      rw [step_goto_body, stepBody, State.goto_goto]
  | restoreSets reads writes k ih =>
      apply Relation.ReflTransGen.head _ (ih n _ hok hflag)
      refine ⟨.tau i, ?_, rfl⟩
      rw [step_goto_body, stepBody, State.goto_goto]

omit [DecidableEq ι] in
@[simp] theorem versionOk_goto (s : State θ ι V R P) (i : θ) (ph : Phase ι V R P) (tid : ι)
    (ver : ℕ) : versionOk (s.goto i ph) tid ver = versionOk s tid ver := rfl

/-- A loop of `validate` that finds every version it expects. -/
theorem within_checks (loop : List (ι × V × ℕ) → Phase ι V R P)
    (hstep : ∀ tid v ver rest, versionOk s tid ver = true →
      step prog (s.goto i (loop ((tid, v, ver) :: rest))) (.sched i) =
        some (.check i tid, s.goto i (loop rest)))
    (todo : List (ι × V × ℕ)) (hall : ∀ a ∈ todo, versionOk s a.1 a.2.2 = true) :
    Relation.ReflTransGen (Within prog i) (s.goto i (loop todo)) (s.goto i (loop [])) := by
  induction todo with
  | nil => exact Relation.ReflTransGen.refl
  | cons a rest ih =>
      obtain ⟨tid, v, ver⟩ := a
      have hrest := ih fun b hb => hall b (List.mem_cons_of_mem _ hb)
      have hfirst := hstep tid v ver rest (hall (tid, v, ver) List.mem_cons_self)
      exact Relation.ReflTransGen.head ⟨_, hfirst, rfl⟩ hrest

variable (prog) in
/-- Alone, the write loop of `commit` comes to its end. -/
theorem within_writes {txn : Transaction ι V} {r : R} (todo : List (ι × V))
    (hph : s.phase i = .commitWrite p txn r todo) (hok : PhaseOk s (s.phase i)) :
    ∃ s', Relation.ReflTransGen (Within prog i) s s' ∧ s'.phase i = .commitWrite p txn r [] := by
  induction todo generalizing s with
  | nil => exact ⟨s, Relation.ReflTransGen.refl, hph⟩
  | cons w rest ih =>
      obtain ⟨tid, value⟩ := w
      obtain ⟨e, s', hs, hbegins, hph'⟩ : ∃ e s', step prog s (.sched i) = some (e, s') ∧
          e.beginsAttempt = false ∧ s'.phase i = .commitWrite p txn r rest := by
        have hmod : modifiedSinceRead txn tid (s.tvars tid) = false := by
          rw [hph] at hok
          exact hok.2 (tid, value) List.mem_cons_self
        have hstep : step prog s (.sched i) =
            some (stepCommitWrite s i p txn r ((tid, value) :: rest)) := by
          rw [step, advance, hph]
        rw [stepCommitWrite, hmod] at hstep
        cases hreg : s.idToTvar tid with
        | true =>
            rw [hreg] at hstep
            exact ⟨_, _, hstep, rfl, State.phase_store_self ..⟩
        | false =>
            rw [hreg] at hstep
            exact ⟨_, _, hstep, rfl, State.phase_goto_self ..⟩
      obtain ⟨s'', hrest, hph''⟩ := ih hph' ((step_move hs).phaseOk_self hok)
      exact ⟨s'', Relation.ReflTransGen.head ⟨e, hs, hbegins⟩ hrest, hph''⟩

/-- Alone, an attempt that expects the versions that the TVars have is through both `validate`s and
that of `commit`. -/
theorem within_validated (hs : s.Quiet) {r : R} {txn : Transaction ι V}
    (hversions : ∀ a ∈ txn.readSet.items, versionOk s a.1 a.2.2 = true) :
    Relation.ReflTransGen (Within prog i) (s.goto i (.validate p txn r txn.readSet.items))
      ({ s with globalLock := some i }.goto i (.commitWrite p txn r txn.writeSet.items)) := by
  let s₂ : State θ ι V R P := { s with globalLock := some i }
  have hoccupied : ∀ a ∈ txn.readSet.items, versionOk s₂ a.1 a.2.2 = true := hversions
  have hvalidate : Relation.ReflTransGen (Within prog i)
      (s.goto i (.validate p txn r txn.readSet.items)) (s.goto i (.validate p txn r [])) := by
    apply within_checks (.validate p txn r) _ _ hversions
    intro tid v ver rest hv
    rw [step, advance, State.phase_goto_self]
    simp [hv]
  have hlocked : Relation.ReflTransGen (Within prog i)
      (s₂.goto i (.validateLocked p txn r txn.readSet.items))
      (s₂.goto i (.validateLocked p txn r [])) := by
    apply within_checks (.validateLocked p txn r) _ _ hoccupied
    intro tid v ver rest hv
    rw [step, advance, State.phase_goto_self]
    simp [hv]
  have hcommit : Relation.ReflTransGen (Within prog i)
      (s₂.goto i (.commitValidate p txn r txn.readSet.items))
      (s₂.goto i (.commitValidate p txn r [])) := by
    apply within_checks (.commitValidate p txn r) _ _ hoccupied
    intro tid v ver rest hv
    rw [step, advance, State.phase_goto_self]
    simp [hv]
  have hvalidated : Within prog i (s.goto i (.validate p txn r []))
      (s.goto i (.acquire p txn r)) := by
    refine ⟨.tau i, ?_, rfl⟩
    rw [step, advance, State.phase_goto_self]
    simp
  have hacquire : Within prog i (s.goto i (.acquire p txn r))
      (s₂.goto i (.validateLocked p txn r txn.readSet.items)) := by
    refine ⟨.acquire i, ?_, rfl⟩
    rw [step, advance, State.phase_goto_self]
    simp [hs.free, State.setLock, State.goto, s₂]
  have hvalidatedLocked : Within prog i (s₂.goto i (.validateLocked p txn r []))
      (s₂.goto i (.commitValidate p txn r txn.readSet.items)) := by
    refine ⟨.tau i, ?_, rfl⟩
    rw [step, advance, State.phase_goto_self]
    simp
  have hstart : Within prog i (s₂.goto i (.commitValidate p txn r []))
      (s₂.goto i (.commitWrite p txn r txn.writeSet.items)) := by
    refine ⟨.commitStart i p txn r, ?_, rfl⟩
    rw [step, advance, State.phase_goto_self]
    simp
  exact ((((hvalidate.tail hvalidated).tail hacquire).trans hlocked).tail hvalidatedLocked).trans
    (hcommit.tail hstart)

/-- From there it commits and returns. -/
theorem commitsFirst_of_versionOk (hs : s.Quiet) {r : R} {txn : Transaction ι V}
    (hbody : Relation.ReflTransGen (Within prog i) (s.goto i (attempt prog p))
      (s.goto i (.validate p txn r txn.readSet.items)))
    (hversions : ∀ a ∈ txn.readSet.items, versionOk s a.1 a.2.2 = true) :
    CommitsFirst prog s i p := by
  have hph : ({ s with globalLock := some i }.goto i
      (.commitWrite p txn r txn.writeSet.items)).phase i =
        .commitWrite p txn r txn.writeSet.items := State.phase_goto_self ..
  have hloop : PhaseOk ({ s with globalLock := some i }.goto i
      (.commitWrite p txn r txn.writeSet.items)) (.commitWrite p txn r txn.writeSet.items) :=
    ⟨Dict.nodup _, fun a _ => not_modifiedSinceRead hversions a.1⟩
  rw [← hph] at hloop
  obtain ⟨s₃, hwrites, hph₃⟩ := within_writes prog txn.writeSet.items hph hloop
  have hcommit : Within prog i s₃ (s₃.goto i (.release p (.returned r))) := by
    refine ⟨.commit i p txn r, ?_, rfl⟩
    rw [step, advance, hph₃]
    rfl
  refine ⟨s₃.goto i (.release p (.returned r)), r,
    (s₃.goto i (.release p (.returned r))).setLock none i .idle,
    ((hbody.trans (within_validated hs hversions)).trans hwrites).tail hcommit, ?_⟩
  rw [step, advance, State.phase_goto_self]
  rfl

/-- The thread, alone since the state `s₀`, is in its body, or in the first `validate` with an entry
for `tid` to come. -/
def Refused (prog : P → Body ι V R) (s₀ : State θ ι V R P) (p : P) (tid : ι) :
    Phase ι V R P → Prop
  | .body p' cur txn => p' = p ∧ ∃ n rs,
      (prog p).runAlone s₀.tvars = (cur.exec (fun _ => s₀.tvars) n txn).after rs
  | .validate _ _ _ todo => ∃ a ∈ todo, a.1 = tid
  | _ => False

/-- An entry for a TVar that is not registered keeps an attempt from getting beyond the first
`validate`. -/
theorem Move.refused {s₀ s s' : State θ ι V R P} {e : Event θ ι V R P} {tid : ι} {r : R}
    (hm : Move prog s i e s') (hbegins : e.beginsAttempt = false)
    (hok : ((prog p).runAlone s₀.tvars).outcome = .ok r)
    (hread : ((prog p).runAlone s₀.tvars).txn.readSet.get tid ≠ none)
    (hreg : s₀.idToTvar tid = false) (htvars : s.tvars = s₀.tvars)
    (hregistry : s.idToTvar = s₀.idToTvar) (h : Refused prog s₀ p tid (s.phase i)) :
    s'.tvars = s₀.tvars ∧ Refused prog s₀ p tid (s'.phase i) := by
  cases hm with
  | @op p' cur txn cur' txn' hph hop =>
      rw [hph] at h
      obtain ⟨rfl, n, rs, hrun⟩ := h
      refine ⟨htvars, ?_⟩
      rw [State.phase_goto_self]
      exact ⟨rfl, n, rs, by rw [hrun, hop.exec_eq]⟩
  | @read p' t k txn hph hw =>
      rw [hph] at h
      obtain ⟨rfl, n, rs, hrun⟩ := h
      refine ⟨htvars, ?_⟩
      rw [State.phase_goto_self, htvars]
      refine ⟨rfl, n + 1, rs ++ [(t, s₀.tvars t)], ?_⟩
      rw [hrun, Body.exec_readTvar_of_not_written _ k n hw, Result.after_after]
  | @bodyDone p' r' txn hph hf =>
      rw [hph] at h
      obtain ⟨rfl, n, rs, hrun⟩ := h
      refine ⟨htvars, ?_⟩
      rw [State.phase_goto_self]
      -- the read set of the whole run has the entry
      have htxn : ((prog p').runAlone s₀.tvars).txn = txn := by
        rw [hrun]
        rfl
      rw [htxn] at hread
      obtain ⟨entry, hentry⟩ := Option.ne_none_iff_exists'.mp hread
      exact ⟨(tid, entry), (Dict.get_eq_some_iff _ _ _).mp hentry, rfl⟩
  | @bodyEscape p' e txn hph he =>
      rw [hph] at h
      obtain ⟨rfl, n, rs, hrun⟩ := h
      rw [hrun] at hok
      cases hok
  | @check p' txn r' t v ver rest hph hv =>
      rw [hph] at h
      obtain ⟨a, hmem, rfl⟩ := h
      refine ⟨htvars, ?_⟩
      rw [State.phase_goto_self]
      rcases List.mem_cons.mp hmem with rfl | hrest
      · -- the entry itself is not checked successfully
        rw [versionOk, hregistry, hreg] at hv
        cases hv
      · exact ⟨a, hrest, rfl⟩
  | validated hph =>
      rw [hph] at h
      obtain ⟨a, hmem, -⟩ := h
      cases hmem
  | call _ | bodyFlag _ _ | bodyRetry _ | checkFailed _ _ | releaseConflict _ => cases hbegins
  | acquire hph _ | checkLocked hph _ | checkLockedFailed hph _ | validatedLocked hph
  | checkCommit hph _ | checkCommitFailed hph _ | commitStart hph | write hph _ _
  | writeRaise hph _ | writeSkip hph _ | commit hph | releaseReturned hph | releaseRaised hph =>
      rw [hph] at h
      exact h.elim

/-- **Alone.**  A transaction that runs alone, returns and does not signal retry commits on its
first attempt just if every TVar of its read set is registered. -/
theorem commitsFirst_iff (hcopies : (prog p).RestoresCopies fun _ _ => False) (hs : s.Quiet) {r : R}
    (hok : ((prog p).runAlone s.tvars).outcome = .ok r)
    (hflag : ((prog p).runAlone s.tvars).txn.shouldRetry = false) :
    CommitsFirst prog s i p ↔
      ∀ tid, ((prog p).runAlone s.tvars).txn.readSet.get tid ≠ none → s.idToTvar tid = true := by
  constructor
  · rintro ⟨s₁, r', s', hwithin, hreturned⟩ tid hread
    by_contra hreg
    have hrefused : s₁.tvars = s.tvars ∧ s₁.idToTvar = s.idToTvar ∧
        Refused prog s p tid (s₁.phase i) := by
      clear hreturned
      induction hwithin with
      | refl =>
          refine ⟨rfl, rfl, ?_⟩
          rw [State.phase_goto_self]
          exact ⟨rfl, 0, [], rfl⟩
      | tail _ hstep ih =>
          obtain ⟨htvars, hregistry, h⟩ := ih
          obtain ⟨e, hs, hbegins⟩ := hstep
          have hm := step_move hs
          obtain ⟨htvars', h'⟩ := hm.refused hbegins hok hread (Bool.eq_false_iff.mpr hreg) htvars
            hregistry h
          exact ⟨htvars', hm.idToTvar_eq.trans hregistry, h'⟩
    cases step_move hreturned with
    | releaseReturned hph =>
        have h := hrefused.2.2
        rw [show s₁.phase i = _ from hph] at h
        exact h
  · intro hregistered
    have hnone : Current s.tvars (Transaction.init : Transaction ι V).readSet := by
      intro tid v ver hget
      cases hget
    have hcurrent : Current s.tvars ((prog p).runAlone s.tvars).txn.readSet :=
      Body.current_exec hcopies (fun _ _ h => h.elim) 0 hnone
    apply commitsFirst_of_versionOk hs (within_body (prog p) 0 .init hok hflag)
    rintro ⟨tid, v, ver⟩ hmem
    have hget := (Dict.get_eq_some_iff _ _ _).mpr hmem
    have hne : ((prog p).runAlone s.tvars).txn.readSet.get tid ≠ none := by
      rw [Body.runAlone, hget]
      simp
    rw [versionOk, hregistered tid hne, hcurrent tid v ver hget]
    simp

end Alone

/-! ## Committed writes -/

/-- **Committed writes.**  Any number of threads, and any TVars, registered or not.  For each commit
there is the state `s₁` in which it began, since when no other thread has written; compared with it,
each TVar that the attempt wrote has the last value written to it, under the next version, and every
other one is as it was, just if all that it wrote are registered.  And a transaction that runs
alone, returns and does not signal retry commits on its first attempt just if all TVars of its read
set are registered. -/
theorem committed_writes_iff {s₀ : State θ ι V R P} (hs₀ : s₀.Quiet) :
    (∀ h s a i p txn r s', Run (step prog) anyStep s₀ h s →
      step prog s a = some (.commit i p txn r, s') →
        ∃ h₁ s₁ h₂, h = h₁ ++ .commitStart i p txn r :: h₂ ∧ Run (step prog) anyStep s₀ h₁ s₁ ∧
          (∀ j tid value, .write j tid value ∈ h₂ → j = i) ∧
          (s'.tvars = installed s₁.tvars (attemptWrites prog p i h s₁.tvars) ↔
            ∀ w ∈ attemptWrites prog p i h s₁.tvars, s₀.idToTvar w.1 = true)) ∧
    ∀ i p r, ((prog p).RestoresCopies fun _ _ => False) →
      ((prog p).runAlone s₀.tvars).outcome = .ok r →
      ((prog p).runAlone s₀.tvars).txn.shouldRetry = false →
        (CommitsFirst prog s₀ i p ↔
          ∀ tid, ((prog p).runAlone s₀.tvars).txn.readSet.get tid ≠ none →
            s₀.idToTvar tid = true) := by
  constructor
  · intro h s a i p txn r s' hr hs
    exact commit_installs_iff hs₀ hr hs
  · intro i p r hcopies hok hflag
    exact commitsFirst_iff hcopies hs₀ hok hflag

/-- The calls of a thread that sets the TVar to 1, up to the return of `commit`. -/
def setOneSchedule : List (Action Unit Bool) := .call () false :: List.replicate 7 (.sched ())

/-- With a registered TVar both are so: the commit sets it, and reading it commits at once. -/
theorem committed_writes_iff_registered :
    (∃ s' s₁ : State Unit Unit ℕ (ℕ × ℕ) Bool,
      (s'.tvars ()).value = 1 ∧ s'.tvars = installed s₁.tvars [((), 1)]) ∧
    CommitsFirst readTwiceOrSetOne (State.made (fun _ : Unit => 0) fun _ => true) () true := by
  have hquiet : (State.made (fun _ => 0) fun _ => true :
      State Unit Unit ℕ (ℕ × ℕ) Bool).Quiet := quiet_made _ _
  have hboth := @committed_writes_iff Unit Unit ℕ (ℕ × ℕ) Bool _ _ readTwiceOrSetOne _ hquiet
  constructor
  · have hr := run_of_replay (step readTwiceOrSetOne)
      (s := State.made (fun _ : Unit => 0) fun _ => true) setOneSchedule rfl
    obtain ⟨h₁, s₁, h₂, -, -, -, hinstalled⟩ := hboth.1 _ _ (.sched ()) () false _ _ _ hr rfl
    exact ⟨_, s₁, rfl, hinstalled.mpr fun _ _ => rfl⟩
  · have hplain : readTwice.Plain := fun _ _ => trivial
    exact (hboth.2 () true (0, 0) (hplain.restoresCopies _) rfl rfl).mpr fun _ _ => rfl

/-- A TVar that is made by `TVar` only: a write to it is lost, and a read of it keeps the
transaction from committing. -/
theorem not_committed_writes :
    (¬ ∀ (registered : Unit → Bool) (h : List (Event Unit Unit ℕ (ℕ × ℕ) Bool)) s a i p txn r s',
      Run (step readTwiceOrSetOne) anyStep (State.made (fun _ => 0) registered) h s →
      step readTwiceOrSetOne s a = some (.commit i p txn r, s') →
        ∃ (h₁ : List (Event Unit Unit ℕ (ℕ × ℕ) Bool)) (s₁ : State Unit Unit ℕ (ℕ × ℕ) Bool)
          (h₂ : List (Event Unit Unit ℕ (ℕ × ℕ) Bool)), h = h₁ ++ .commitStart i p txn r :: h₂ ∧
          Run (step readTwiceOrSetOne) anyStep (State.made (fun _ => 0) registered) h₁ s₁ ∧
          s'.tvars = installed s₁.tvars (attemptWrites readTwiceOrSetOne p i h s₁.tvars)) ∧
    ¬ ∀ registered : Unit → Bool, CommitsFirst readTwiceOrSetOne
      (State.made (fun _ => 0) registered : State Unit Unit ℕ (ℕ × ℕ) Bool) () true := by
  constructor
  · intro hall
    have hr := run_of_replay (step readTwiceOrSetOne)
      (s := State.made (fun _ : Unit => 0) fun _ => false) setOneSchedule rfl
    obtain ⟨h₁, s₁, h₂, -, -, hinstalled⟩ := hall _ _ _ (.sched ()) () false _ _ _ hr rfl
    -- the TVar is under its first version still
    have hversion := congrArg (fun tvars => (tvars ()).version) hinstalled
    exact absurd hversion (Nat.succ_ne_zero _).symm
  · intro hall
    have hplain : readTwice.Plain := fun _ _ => trivial
    have hcopies : (readTwiceOrSetOne true).RestoresCopies fun _ _ => False :=
      hplain.restoresCopies _
    have hquiet : (State.made (fun _ => 0) fun _ => false :
        State Unit Unit ℕ (ℕ × ℕ) Bool).Quiet := quiet_made _ _
    have hiff := commitsFirst_iff hcopies (i := ()) hquiet (r := (0, 0)) rfl rfl
    have hread : ((readTwiceOrSetOne true).runAlone
        (State.made (fun _ : Unit => 0) (fun _ => false) :
          State Unit Unit ℕ (ℕ × ℕ) Bool).tvars).txn.readSet.get () ≠ none :=
      Option.some_ne_none _
    cases hiff.mp (hall fun _ => false) () hread

end Stm
