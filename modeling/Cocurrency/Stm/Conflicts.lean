/-
# Conflicts are real (`python/stm/stm_model.py`)

A `validate` compares versions; what it is about is whether some TVar of the read set has been
written since it was read.  The two are the same: a write raises the version, nothing lowers it, and
the TVar is read with its version under one lock (`version_eq_iff`).  No write of the attempt's own
comes in between, since an attempt writes only after its `validate`s.

`run_conflictsReal` puts this together for every interleaving.
-/
import Mathlib.Data.List.Induction
import Cocurrency.Stm.ReadSet
import Cocurrency.Stm.Serial

namespace Stm

variable {θ ι V R P : Type}

/-! ## Writes and versions -/

section Versions

variable [DecidableEq ι]

/-- A TVar that nobody has written. -/
theorem foldl_applyEvent_of_not_written {tid : ι} (h : List (Event θ ι V R P))
    (hno : ∀ j value, .write j tid value ∉ h) (tvars : ι → TVar V) :
    h.foldl applyEvent tvars tid = tvars tid := by
  induction h generalizing tvars with
  | nil => rfl
  | cons e h ih =>
      have hkeep : applyEvent tvars e tid = tvars tid := by
        cases e with
        | write j t value =>
            have hne : tid ≠ t := by
              rintro rfl
              exact hno j value List.mem_cons_self
            exact Function.update_of_ne hne ..
        | _ => rfl
      have hrest : ∀ j value, .write j tid value ∉ h :=
        fun j value hmem => hno j value (List.mem_cons_of_mem _ hmem)
      rw [List.foldl_cons, ih hrest, hkeep]

/-- Versions go up. -/
theorem version_le_foldl_applyEvent (tid : ι) (h : List (Event θ ι V R P)) (tvars : ι → TVar V) :
    (tvars tid).version ≤ (h.foldl applyEvent tvars tid).version := by
  induction h generalizing tvars with
  | nil => exact Nat.le_refl _
  | cons e h ih =>
      have hrest := ih (applyEvent tvars e)
      rw [List.foldl_cons]
      rcases version_applyEvent tvars e tid with heq | hlt
      · rw [heq] at hrest
        exact hrest
      · omega

/-- A write raises the version. -/
theorem version_lt_foldl_applyEvent {j : θ} {tid : ι} {value : V} {h : List (Event θ ι V R P)}
    (hmem : .write j tid value ∈ h) (tvars : ι → TVar V) :
    (tvars tid).version < (h.foldl applyEvent tvars tid).version := by
  obtain ⟨h₁, h₂, rfl⟩ := List.append_of_mem hmem
  rw [List.foldl_append, List.foldl_cons]
  have hbefore := version_le_foldl_applyEvent tid h₁ tvars
  have hwrite : (applyEvent (h₁.foldl applyEvent tvars)
      (.write j tid value : Event θ ι V R P) tid).version =
        (h₁.foldl applyEvent tvars tid).version + 1 := by
    simp [applyEvent]
  have hafter := version_le_foldl_applyEvent tid h₂
    (applyEvent (h₁.foldl applyEvent tvars) (.write j tid value : Event θ ι V R P))
  omega

end Versions

/-! ## The events of an attempt in the history -/

/-- No attempt of thread `i` begins in `h`. -/
def SameAttempt (i : θ) (h : List (Event θ ι V R P)) : Prop :=
  ∀ x ∈ h, x.thread = i → x.beginsAttempt = false

variable [DecidableEq θ]

/-- An event of the attempt is somewhere in the history. -/
theorem exists_split_of_mem_attemptEvents {i : θ} {x : Event θ ι V R P}
    (h : List (Event θ ι V R P)) (hx : x ∈ attemptEvents i h) :
    ∃ h₁ h₂, h = h₁ ++ x :: h₂ ∧ SameAttempt i h₂ := by
  induction h using List.reverseRecOn with
  | nil => cases hx
  | append_singleton h e ih =>
      rw [attemptEvents_snoc] at hx
      have hearlier : (e.thread = i → e.beginsAttempt = false) → x ∈ attemptEvents i h →
          ∃ h₁ h₂, h ++ [e] = h₁ ++ x :: h₂ ∧ SameAttempt i h₂ := by
        intro hwithin hx
        obtain ⟨h₁, h₂, rfl, hsame⟩ := ih hx
        refine ⟨h₁, h₂ ++ [e], by simp, ?_⟩
        intro y hy hthread
        rcases List.mem_append.mp hy with hy | hy
        · exact hsame y hy hthread
        · rw [List.mem_singleton.mp hy] at hthread ⊢
          exact hwithin hthread
      split_ifs at hx with hthread hbegins
      · cases hx
      · rcases List.mem_append.mp hx with hx | hx
        · exact hearlier (fun _ => by simpa using hbegins) hx
        · rw [List.mem_singleton.mp hx]
          exact ⟨h, [], rfl, fun y hy => by cases hy⟩
      · exact hearlier (fun heq => absurd heq hthread) hx

/-- The events of the attempt are of its thread. -/
theorem thread_of_mem_attemptEvents {i : θ} {x : Event θ ι V R P} (h : List (Event θ ι V R P))
    (hx : x ∈ attemptEvents i h) : x.thread = i := by
  induction h using List.reverseRecOn with
  | nil => cases hx
  | append_singleton h e ih =>
      rw [attemptEvents_snoc] at hx
      split_ifs at hx with hthread
      · cases hx
      · rcases List.mem_append.mp hx with hx | hx
        · exact ih hx
        · rw [List.mem_singleton.mp hx]
          exact hthread
      · exact ih hx

/-- The events since an event of the attempt, of the same thread, are of the attempt. -/
theorem mem_attemptEvents_of_sameAttempt {i : θ} (h₁ : List (Event θ ι V R P))
    {h₂ : List (Event θ ι V R P)}
    (hsame : SameAttempt i h₂) {y : Event θ ι V R P} (hy : y ∈ h₂) (hthread : y.thread = i) :
    y ∈ attemptEvents i (h₁ ++ h₂) := by
  induction h₂ using List.reverseRecOn with
  | nil => cases hy
  | append_singleton h₂ e ih =>
      have hsame₂ : SameAttempt i h₂ := fun x hx => hsame x (List.mem_append_left _ hx)
      rw [← List.append_assoc, attemptEvents_snoc]
      have hwithin := hsame e (List.mem_append_right _ List.mem_cons_self)
      split_ifs with he hbegins
      · rw [hwithin he] at hbegins
        cases hbegins
      · rcases List.mem_append.mp hy with hy | hy
        · exact List.mem_append_left _ (ih hsame₂ hy)
        · exact List.mem_append_right _ hy
      · rcases List.mem_append.mp hy with hy | hy
        · exact ih hsame₂ hy
        · rw [List.mem_singleton.mp hy] at hthread
          exact absurd hthread he

/-- What has been read was read by a read. -/
theorem exists_read_of_mem_attemptReads {i : θ} {tid : ι} {tvar : TVar V}
    {h : List (Event θ ι V R P)} (hmem : (tid, tvar) ∈ attemptReads i h) :
    ∃ h₁ h₂, h = h₁ ++ .read i tid tvar :: h₂ ∧ SameAttempt i h₂ := by
  obtain ⟨x, hx, hread⟩ := List.mem_filterMap.mp hmem
  have hthread : x.thread = i := thread_of_mem_attemptEvents h hx
  cases x with
  | read j t found =>
      cases hread
      cases hthread
      exact exists_split_of_mem_attemptEvents h hx
  | _ => cases hread

variable [DecidableEq ι] {prog : P → Body ι V R}

/-! ## Since a read -/

/-- What a TVar is at the end of a run, in terms of what a read has found. -/
theorem run_since_read {ok : State θ ι V R P → Action θ P → Prop} {s₀ s : State θ ι V R P}
    {h₁ h₂ : List (Event θ ι V R P)} {i : θ} {tid : ι} {tvar : TVar V}
    (hr : Run (step prog) ok s₀ (h₁ ++ .read i tid tvar :: h₂) s) :
    ∃ store : ι → TVar V, store tid = tvar ∧ s.tvars = h₂.foldl applyEvent store := by
  obtain ⟨s₁, -, hrest⟩ := hr.split_append
  obtain ⟨a, s₂, hs, hr₂⟩ := hrest.first_step
  refine ⟨s₂.tvars, ?_, run_tvars_eq hr₂⟩
  cases step_move hs with
  | read _ _ => rfl

/-- **Versions are sound.**  A TVar has the version that a read found just if nobody has written it
since, and then it is as it was. -/
theorem version_eq_iff {ok : State θ ι V R P → Action θ P → Prop} {s₀ s : State θ ι V R P}
    {h₁ h₂ : List (Event θ ι V R P)} {i : θ} {tid : ι} {tvar : TVar V}
    (hr : Run (step prog) ok s₀ (h₁ ++ .read i tid tvar :: h₂) s) :
    ((s.tvars tid).version = tvar.version ↔ ∀ j value, .write j tid value ∉ h₂) ∧
      ((s.tvars tid).version = tvar.version → s.tvars tid = tvar) := by
  obtain ⟨store, hstore, htvars⟩ := run_since_read hr
  have hunwritten : (∀ j value, .write j tid value ∉ h₂) → s.tvars tid = tvar := by
    intro hno
    rw [htvars, foldl_applyEvent_of_not_written h₂ hno, hstore]
  have hiff : (s.tvars tid).version = tvar.version ↔ ∀ j value, .write j tid value ∉ h₂ := by
    constructor
    · intro hversion j value hmem
      have hlt := version_lt_foldl_applyEvent hmem store
      rw [← htvars, hstore] at hlt
      omega
    · intro hno
      rw [hunwritten hno]
  exact ⟨hiff, fun hversion => hunwritten (hiff.mp hversion)⟩

/-- Some thread other than `i` has written the TVar since the attempt of thread `i` found it as
`tvar`; if it found it so several times, since the last one. -/
def Overwritten (i : θ) (h : List (Event θ ι V R P)) (tid : ι) (tvar : TVar V) : Prop :=
  ∀ h₁ h₂, h = h₁ ++ .read i tid tvar :: h₂ → SameAttempt i h₂ →
    ∃ j value, j ≠ i ∧ .write j tid value ∈ h₂

omit [DecidableEq θ] [DecidableEq ι] in
theorem Overwritten.snoc {i : θ} {h : List (Event θ ι V R P)} {tid : ι} {tvar : TVar V}
    (hover : Overwritten i h tid tvar) {e : Event θ ι V R P} (hne : e ≠ .read i tid tvar) :
    Overwritten i (h ++ [e]) tid tvar := by
  intro h₁ h₂ hsplit hsame
  rcases List.eq_nil_or_concat' h₂ with rfl | ⟨h₃, e', rfl⟩
  · obtain ⟨-, he⟩ := List.append_inj' hsplit rfl
    cases he
    exact absurd rfl hne
  · have hsplit' : h ++ [e] = (h₁ ++ .read i tid tvar :: h₃) ++ [e'] := by simp [hsplit]
    obtain ⟨hinit, -⟩ := List.append_inj' hsplit' rfl
    obtain ⟨j, value, hj, hmem⟩ :=
      hover h₁ h₃ hinit fun x hx => hsame x (List.mem_append_left _ hx)
    exact ⟨j, value, hj, List.mem_append_left _ hmem⟩

/-! ## What is still to be checked -/

/-- The entries that a `validate` has yet to visit. -/
def Phase.todo : Phase ι V R P → List (ι × V × ℕ)
  | .validate _ _ _ todo | .validateLocked _ _ _ todo | .commitValidate _ _ _ todo => todo
  | _ => []

/-- They are entries of the read set. -/
def TodoOk (ph : Phase ι V R P) : Prop := ∀ a ∈ ph.todo, ph.readSet.get a.1 = some a.2

theorem todoOk_items (txn : Transaction ι V) :
    ∀ a ∈ txn.readSet.items, txn.readSet.get a.1 = some a.2 :=
  fun _ ha => (Dict.get_eq_some_iff _ _ _).mpr ha

theorem Move.todoOk_self {s s' : State θ ι V R P} {i : θ} {e : Event θ ι V R P}
    (hm : Move prog s i e s') (h : TodoOk (s.phase i)) : TodoOk (s'.phase i) := by
  cases hm with
  | @bodyDone _ _ txn _ _ | @validatedLocked _ txn _ _ =>
      rw [State.phase_goto_self]
      exact todoOk_items txn
  | @acquire _ txn _ _ _ =>
      rw [State.phase_setLock_self]
      exact todoOk_items txn
  | check hph _ | checkLocked hph _ | checkCommit hph _ =>
      rw [State.phase_goto_self]
      rw [hph] at h
      intro entry hentry
      exact h entry (List.mem_cons_of_mem _ hentry)
  | write _ _ _ =>
      rw [State.phase_store_self]
      exact List.forall_mem_nil _
  | releaseReturned _ | releaseConflict _ | releaseRaised _ =>
      rw [State.phase_setLock_self]
      exact List.forall_mem_nil _
  | call _ | op _ _ | read _ _ | bodyFlag _ _ | bodyRetry _ | bodyEscape _ _ | checkFailed _ _
  | validated _ | checkLockedFailed _ _ | checkCommitFailed _ _ | commitStart _ | writeRaise _ _
  | writeSkip _ _ | commit _ =>
      rw [State.phase_goto_self]
      exact List.forall_mem_nil _

theorem run_todoOk {ok : State θ ι V R P → Action θ P → Prop} {s₀ s : State θ ι V R P}
    {h : List (Event θ ι V R P)} (hr : Run (step prog) ok s₀ h s)
    (hidle : ∀ i, s₀.phase i = .idle) (i : θ) : TodoOk (s.phase i) := by
  refine run_ownSteps (fun _ _ ph => TodoOk ph) ?_ ?_ ?_ hr i
  · intro i
    rw [hidle i]
    exact List.forall_mem_nil _
  · intro h s a e s' _ _ hm htodo
    exact hm.todoOk_self htodo
  · intro i h e ph _ htodo
    exact htodo

/-! ## Conflicts -/

/-- An attempt that has not come to its write loop finds another version than the one on record just
if another thread has written the TVar since. -/
theorem version_ne_iff (hcopies : ∀ p, (prog p).RestoresCopies fun _ _ => False)
    {ok : State θ ι V R P → Action θ P → Prop} {values : ι → V} {s : State θ ι V R P}
    {h : List (Event θ ι V R P)} (hr : Run (step prog) ok (State.create values) h s) {i : θ}
    (hbefore : (s.phase i).isWriting = false) {tid : ι} {v : V} {ver : ℕ}
    (hget : (s.phase i).readSet.get tid = some (v, ver)) :
    (s.tvars tid).version ≠ ver ↔ Overwritten i h tid ⟨v, ver⟩ := by
  constructor
  · rintro hne h₁ h₂ rfl hsame
    have hwritten : ∃ j value, .write j tid value ∈ h₂ := by
      by_contra hno
      apply hne
      apply (version_eq_iff hr).1.mpr
      intro j value hmem
      exact hno ⟨j, value, hmem⟩
    obtain ⟨j, value, hmem⟩ := hwritten
    refine ⟨j, value, ?_, hmem⟩
    rintro rfl
    -- an attempt that has written is in its write loop, or has committed and is over
    have hevent := mem_attemptEvents_of_sameAttempt (h₁ ++ [.read j tid ⟨v, ver⟩]) hsame hmem rfl
    rw [List.append_assoc, List.singleton_append] at hevent
    rcases run_wroteOk hr j ⟨_, hevent, rfl⟩ with hwriting | ⟨-, ⟨p, r, hph⟩ | hph⟩
    · rw [hbefore] at hwriting
      cases hwriting
    · rw [hph] at hget
      cases hget
    · rw [hph] at hget
      cases hget
  · intro hover heq
    obtain ⟨h₁, h₂, rfl, hsame⟩ :=
      exists_read_of_mem_attemptReads (run_accessed hcopies hr (fun _ => rfl) i tid v ver hget)
    obtain ⟨j, value, -, hmem⟩ := hover h₁ h₂ rfl hsame
    exact (version_eq_iff hr).1.mp heq j value hmem

omit [DecidableEq θ] [DecidableEq ι] in
/-- A registered TVar fails the check if its version has changed. -/
theorem versionOk_eq_false_iff {s : State θ ι V R P} {tid : ι} {ver : ℕ}
    (hreg : s.idToTvar tid = true) : versionOk s tid ver = false ↔ (s.tvars tid).version ≠ ver := by
  simp [versionOk, hreg]

/-- A thread that has failed its second `validate` has read a TVar that has been overwritten. -/
theorem run_release_conflict (hcopies : ∀ p, (prog p).RestoresCopies fun _ _ => False)
    {ok : State θ ι V R P → Action θ P → Prop} {values : ι → V} {s : State θ ι V R P}
    {h : List (Event θ ι V R P)} (hr : Run (step prog) ok (State.create values) h s) {i : θ} {p : P}
    (hph : s.phase i = .release p .conflict) :
    ∃ b ∈ attemptReads i h, Overwritten i h b.1 b.2 := by
  induction hr with
  | nil => cases hph
  | @snoc h s s' a e hr hok hs ih =>
      have hm := step_move hs
      by_cases hi : i = a.thread
      · subst hi
        cases hm with
        | @checkLockedFailed _ txn _ tid v ver rest hph' hv =>
            have hreg : s.idToTvar tid = true := by
              rw [run_idToTvar hr]
              rfl
            have hget : (s.phase a.thread).readSet.get tid = some (v, ver) :=
              run_todoOk hr (fun _ => rfl) a.thread (tid, v, ver) (by rw [hph']; simp [Phase.todo])
            have hover := (version_ne_iff hcopies hr (by rw [hph']; rfl) hget).mp
              ((versionOk_eq_false_iff hreg).mp hv)
            refine ⟨(tid, ⟨v, ver⟩), ?_, hover.snoc (by simp)⟩
            rw [(step_move hs).attemptReads_of_within h rfl rfl]
            exact run_accessed hcopies hr (fun _ => rfl) a.thread tid v ver hget
        | acquire _ _ | releaseReturned _ | releaseConflict _ | releaseRaised _ =>
            rw [State.phase_setLock_self] at hph
            cases hph
        | write _ _ _ =>
            rw [State.phase_store_self] at hph
            cases hph
        | call _ | op _ _ | read _ _ | bodyDone _ _ | bodyFlag _ _ | bodyRetry _ | bodyEscape _ _
        | check _ _ | checkFailed _ _ | validated _ | checkLocked _ _ | validatedLocked _
        | checkCommit _ _ | checkCommitFailed _ _ | commitStart _ | writeRaise _ _ | writeSkip _ _
        | commit _ =>
            rw [State.phase_goto_self] at hph
            cases hph
      · rw [hm.phase_of_ne hi] at hph
        obtain ⟨b, hb, hover⟩ := ih hph
        refine ⟨b, by rwa [hm.attemptReads_of_ne hi], hover.snoc ?_⟩
        rintro rfl
        exact hi hm.thread_eq

/-- What holds of every attempt under way. -/
structure ConflictsReal (h : List (Event θ ι V R P)) (s : State θ ι V R P) : Prop where
  /-- An entry of the read set is on record from an access of the attempt. -/
  recorded : ∀ i tid v ver, (s.phase i).readSet.get tid = some (v, ver) →
    (tid, ⟨v, ver⟩) ∈ attemptReads i h
  /-- `validate` is about to return `False`: the entry that it visits is in the read set, and the
  TVar has been written by another thread since the access on record. -/
  failed : ∀ i tid v ver rest, (s.phase i).todo = (tid, v, ver) :: rest →
    versionOk s tid ver = false →
      (s.phase i).readSet.get tid = some (v, ver) ∧ Overwritten i h tid ⟨v, ver⟩
  /-- Up to the write loop, the check of an entry fails just if that is so. -/
  checked : ∀ i tid v ver, (s.phase i).isWriting = false →
    (s.phase i).readSet.get tid = some (v, ver) →
      (versionOk s tid ver = false ↔ Overwritten i h tid ⟨v, ver⟩)
  /-- A TVar under the version on record has the value on record. -/
  unchanged : ∀ i tid v ver, (s.phase i).readSet.get tid = some (v, ver) →
    (s.tvars tid).version = ver → (s.tvars tid).value = v

/-- **Conflicts are real**, in every run. -/
theorem run_conflictsReal (hcopies : ∀ p, (prog p).RestoresCopies fun _ _ => False)
    {ok : State θ ι V R P → Action θ P → Prop} {values : ι → V} {s : State θ ι V R P}
    {h : List (Event θ ι V R P)} (hr : Run (step prog) ok (State.create values) h s) :
    ConflictsReal h s := by
  have hreg : ∀ tid, s.idToTvar tid = true := by
    intro tid
    rw [run_idToTvar hr]
    rfl
  have hrecorded : ∀ i tid v ver, (s.phase i).readSet.get tid = some (v, ver) →
      (tid, ⟨v, ver⟩) ∈ attemptReads i h :=
    fun i => run_accessed hcopies hr (fun _ => rfl) i
  have hchecked : ∀ i tid v ver, (s.phase i).isWriting = false →
      (s.phase i).readSet.get tid = some (v, ver) →
        (versionOk s tid ver = false ↔ Overwritten i h tid ⟨v, ver⟩) := by
    intro i tid v ver hbefore hget
    rw [versionOk_eq_false_iff (hreg tid)]
    exact version_ne_iff hcopies hr hbefore hget
  refine ⟨hrecorded, ?_, hchecked, ?_⟩
  · intro i tid v ver rest htodo hfalse
    have hget : (s.phase i).readSet.get tid = some (v, ver) :=
      run_todoOk hr (fun _ => rfl) i (tid, v, ver) (by rw [htodo]; exact List.mem_cons_self)
    have hbefore : (s.phase i).isWriting = false := by
      cases hph : s.phase i with
      | commitWrite p txn r todo =>
          rw [hph] at htodo
          cases htodo
      | _ => rfl
    exact ⟨hget, (hchecked i tid v ver hbefore hget).mp hfalse⟩
  · intro i tid v ver hget hversion
    obtain ⟨h₁, h₂, rfl, -⟩ := exists_read_of_mem_attemptReads (hrecorded i tid v ver hget)
    rw [(version_eq_iff hr).2 hversion]

/-- An attempt that is given up because of a conflict has read a TVar that another thread has
written since. -/
theorem overwritten_of_abort (hcopies : ∀ p, (prog p).RestoresCopies fun _ _ => False)
    {ok : State θ ι V R P → Action θ P → Prop} {values : ι → V} {s s' : State θ ι V R P}
    {h : List (Event θ ι V R P)} (hr : Run (step prog) ok (State.create values) h s)
    {a : Action θ P} {i : θ} {p : P} (hs : step prog s a = some (.abort i p .conflict, s')) :
    ∃ b ∈ attemptReads i h, Overwritten i h b.1 b.2 := by
  have hm := step_move hs
  have hreal := run_conflictsReal hcopies hr
  cases hm with
  | @checkFailed _ txn r tid v ver rest hph hv =>
      obtain ⟨hget, hover⟩ := hreal.failed _ tid v ver rest (by rw [hph]; rfl) hv
      exact ⟨(tid, ⟨v, ver⟩), hreal.recorded _ tid v ver hget, hover⟩
  | releaseConflict hph => exact run_release_conflict hcopies hr hph

/-- **Conflicts are real.**  In every interleaving of `atomically` calls over `create_tvar` TVars: a
`validate` fails at a TVar just if another thread has committed a write to it since the access that
the read set has on record; a TVar under the version on record has the value on record; `commit`
never raises, and an attempt that is given up because of a conflict has read such a TVar.  Without
`_or_else`, the access on record is the last one of the attempt. -/
theorem conflicts_are_real (hcopies : ∀ p, (prog p).RestoresCopies fun _ _ => False)
    {values : ι → V} {s : State θ ι V R P} {h : List (Event θ ι V R P)}
    (hr : Run (step prog) anyStep (State.create values) h s) :
    ConflictsReal h s ∧
    (∀ a i p s', step prog s a = some (.abort i p .conflict, s') →
      ∃ b ∈ attemptReads i h, Overwritten i h b.1 b.2) ∧
    (∀ i msg, .commitRaise i msg ∉ h) ∧
    ((∀ p, (prog p).Plain) → ∀ i tid v ver, (s.phase i).readSet.get tid = some (v, ver) →
      (attemptReads i h).reverse.lookup tid = some ⟨v, ver⟩) := by
  refine ⟨run_conflictsReal hcopies hr, ?_, run_not_commitRaise hr, ?_⟩
  · intro a i p s' hs
    exact overwritten_of_abort hcopies hr hs
  · intro hplain i tid v ver hget
    exact run_lastAccessed hplain hr (fun _ => rfl) hget

/-- The second of two threads that add one each has read the TVar before the first has written it,
and is about to fail its `validate`. -/
theorem conflicts_are_real_increment :
    ∃ (h : List (Event Bool Unit ℕ ℕ Unit)) (s : State Bool Unit ℕ ℕ Unit),
      Run (step fun _ => increment) anyStep (State.create fun _ => 0) h s ∧
      (s.phase true).todo = [((), 0, 0)] ∧ s.tvars () = ⟨1, 1⟩ ∧ Overwritten true h () ⟨0, 0⟩ := by
  have hplain : ∀ p : Unit, increment.Plain := fun _ _ => trivial
  have hr := run_of_replay (step fun _ => increment) (s := State.create fun _ => 0)
    (incrementSchedule.take 18) rfl
  obtain ⟨hreal, -⟩ := conflicts_are_real (fun p => (hplain p).restoresCopies _) hr
  exact ⟨_, _, hr, rfl, rfl, (hreal.failed true () 0 0 [] rfl rfl).2⟩

end Stm
