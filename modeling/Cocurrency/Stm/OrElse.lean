/-
# `_or_else` against the `orElse` combinator

`OrElseSpec` is the reference: what a call of `orElse` owes its caller when the first
alternative signals retry, returns without a signal, or raises something else.  The code
meets it exactly when the first alternative signals by exception only
(`orElseSpec_iff`): `_or_else` looks for an exception, of any kind, and never at the
retry flag.

The second part is about the choice between the alternatives under interleaving.  The
accesses of an abandoned alternative are dropped from the read set with it, so `validate`
does not see them (`not_fallThroughValidated`); the choice still stands at the commit
point if none of the TVars it depends on has changed (`run_fallThrough`).
-/
import Cocurrency.Stm.Serial

namespace Stm

variable {ι V R : Type} [DecidableEq ι]

/-! ## The reference combinator -/

/-- Has the run of the body raised the retry flag, by the method `txn.retry()`, and not
taken it down since?  `raised` is the answer so far. -/
def Body.flagRaised (env : ℕ → ι → TVar V) : Body ι V R → ℕ → Transaction ι V → Bool → Bool
  | .done _, _, _, raised => raised
  | .raise _, _, _, raised => raised
  | .readTvar tid k, n, txn, raised =>
      match txn.writeSet.get tid with
      | some v => (k v).flagRaised env n txn raised
      | none =>
          (k (env n tid).value).flagRaised env (n + 1) (txn.readTvar tid (env n tid)).2 raised
  | .writeTvar tid value k, n, txn, raised =>
      k.flagRaised env n (txn.writeTvar tid value) raised
  | .retryFlag k, n, txn, _ => k.flagRaised env n txn.retry true
  | .shouldRetry k, n, txn, raised => (k txn.shouldRetry).flagRaised env n txn raised
  | .copySets k, n, txn, raised => (k txn.readSet txn.writeSet).flagRaised env n txn raised
  | .restoreSets reads writes k, n, txn, _ =>
      k.flagRaised env n (txn.restore reads writes) false

/-- Begun with the flag as it is before the body, the answer is the flag it leaves. -/
theorem Body.flagRaised_eq (env : ℕ → ι → TVar V) (b : Body ι V R) (n : ℕ)
    (txn : Transaction ι V) :
    b.flagRaised env n txn txn.shouldRetry = (b.exec env n txn).txn.shouldRetry := by
  induction b generalizing n txn with
  | done r => rfl
  | raise e => rfl
  | readTvar tid k ih =>
      cases hw : txn.writeSet.get tid with
      | some v =>
          rw [exec_readTvar_of_written env _ n hw, flagRaised, hw]
          exact ih v n txn
      | none =>
          have hkeep := ih (env n tid).value (n + 1) (txn.readTvar tid (env n tid)).2
          rw [Transaction.shouldRetry_readTvar] at hkeep
          rw [exec_readTvar_of_not_written env _ n hw, flagRaised, hw]
          exact hkeep
  | writeTvar tid value k ih => exact ih n _
  | retryFlag k ih => exact ih n _
  | shouldRetry k ih => exact ih _ n txn
  | copySets k ih => exact ih _ _ n txn
  | restoreSets reads writes k ih => exact ih n _

/-- The body signals retry: it returns with the flag raised, or raises `RetryException`,
as the module function `retry()` does. -/
def SignalsRetry (env : ℕ → ι → TVar V) (n : ℕ) (txn : Transaction ι V) (b : Body ι V R) :
    Prop :=
  match (b.exec env n txn).outcome with
  | .ok _ => b.flagRaised env n txn false = true
  | .error e => e = .retryException

/-- What `orElse` owes its caller. -/
structure OrElseSpec (env : ℕ → ι → TVar V) (n : ℕ) (txn : Transaction ι V)
    (first second : Body ι V R) : Prop where
  /-- If `first` signals retry, the result, the write set and the flag are those of
  `second` run after it on the read and write sets as they were before the call, with the
  retry flag down. -/
  fallThrough : SignalsRetry env n txn first →
    ∀ res, res = second.exec env (n + (first.exec env n txn).reads.length)
        { txn with shouldRetry := false } →
      ((orElse first second).exec env n txn).outcome = res.outcome ∧
      ((orElse first second).exec env n txn).txn.writeSet = res.txn.writeSet ∧
      ((orElse first second).exec env n txn).txn.shouldRetry = res.txn.shouldRetry
  /-- If `first` returns without a signal, that is all that happens. -/
  returned : ∀ r, (first.exec env n txn).outcome = .ok r → ¬ SignalsRetry env n txn first →
    (orElse first second).exec env n txn = first.exec env n txn
  /-- Any other exception propagates. -/
  raised : ∀ e, (first.exec env n txn).outcome = .error e → ¬ SignalsRetry env n txn first →
    (orElse first second).exec env n txn = first.exec env n txn

/-- The body signals retry by exception only, and raises no other `Exception`. -/
def RetriesByException (env : ℕ → ι → TVar V) (n : ℕ) (txn : Transaction ι V)
    (b : Body ι V R) : Prop :=
  match (b.exec env n txn).outcome with
  | .ok _ => b.flagRaised env n txn false = false
  | .error e => e.isException = true → e = .retryException

/-! ## What the code does -/

/-- `_local_cache` is filled but never read: a run does not depend on it. -/
theorem Body.exec_localCache (env : ℕ → ι → TVar V) (b : Body ι V R) (n : ℕ)
    (txn : Transaction ι V) (cache : Dict ι V) :
    ∃ cache', b.exec env n { txn with localCache := cache } =
      { b.exec env n txn with
        txn := { (b.exec env n txn).txn with localCache := cache' } } := by
  induction b generalizing n txn cache with
  | done r => exact ⟨cache, rfl⟩
  | raise e => exact ⟨cache, rfl⟩
  | readTvar tid k ih =>
      have hsame : ({ txn with localCache := cache } : Transaction ι V).writeSet =
          txn.writeSet := rfl
      cases hw : txn.writeSet.get tid with
      | some v =>
          rw [exec_readTvar_of_written env _ n hw,
            exec_readTvar_of_written env _ n (by rw [hsame]; exact hw)]
          exact ih v n txn cache
      | none =>
          obtain ⟨cache', hrest⟩ := ih (env n tid).value (n + 1)
            (txn.readTvar tid (env n tid)).2 (cache.set tid (env n tid).value)
          rw [exec_readTvar_of_not_written env _ n hw,
            exec_readTvar_of_not_written env _ n (by rw [hsame]; exact hw),
            Transaction.readTvar_of_not_written _ (by rw [hsame]; exact hw)]
          rw [Transaction.readTvar_of_not_written _ hw] at hrest ⊢
          refine ⟨cache', ?_⟩
          rw [hrest]
          rfl
  | writeTvar tid value k ih => exact ih n (txn.writeTvar tid value) (cache.set tid value)
  | retryFlag k ih => exact ih n txn.retry cache
  | shouldRetry k ih => exact ih _ n txn cache
  | copySets k ih => exact ih _ _ n txn cache
  | restoreSets reads writes k ih => exact ih n (txn.restore reads writes) cache

/-- After an `Exception` of `first`, the code runs `second` on a transaction that is the
one before the call, up to the cache. -/
theorem exec_orElse_of_exception (env : ℕ → ι → TVar V) {first : Body ι V R}
    (second : Body ι V R) {n : ℕ} {txn : Transaction ι V} {e : Exn}
    (hout : (first.exec env n txn).outcome = .error e) (he : e.isException = true) :
    ∃ cache', (orElse first second).exec env n txn =
      ({ second.exec env (n + (first.exec env n txn).reads.length)
            { txn with shouldRetry := false } with
          txn := { (second.exec env (n + (first.exec env n txn).reads.length)
            { txn with shouldRetry := false }).txn with localCache := cache' } }).after
        (first.exec env n txn).reads := by
  obtain ⟨cache', hsecond⟩ := second.exec_localCache env
    (n + (first.exec env n txn).reads.length) { txn with shouldRetry := false }
    (first.exec env n txn).txn.localCache
  refine ⟨cache', ?_⟩
  rw [Body.exec_orElse, hout]
  simp only [he, if_true]
  rw [← hsecond]
  rfl

/-- `_or_else` returns what `first` returns, whatever the flag. -/
theorem exec_orElse_of_ok (env : ℕ → ι → TVar V) {first second : Body ι V R} {n : ℕ}
    {txn : Transaction ι V} {r : R} (hout : (first.exec env n txn).outcome = .ok r) :
    (orElse first second).exec env n txn = first.exec env n txn := by
  rw [Body.exec_orElse, hout]

/-- `_or_else` lets through what is no `Exception`. -/
theorem exec_orElse_of_baseException (env : ℕ → ι → TVar V) {first second : Body ι V R} {n : ℕ}
    {txn : Transaction ι V} {e : Exn} (hout : (first.exec env n txn).outcome = .error e)
    (he : ¬ e.isException = true) :
    (orElse first second).exec env n txn = first.exec env n txn := by
  rw [Body.exec_orElse, hout]
  simp only [he]
  rfl

theorem OrElseSpec.of_retriesByException {env : ℕ → ι → TVar V} {n : ℕ}
    {txn : Transaction ι V} {first : Body ι V R} (h : RetriesByException env n txn first)
    (second : Body ι V R) : OrElseSpec env n txn first second := by
  rw [RetriesByException] at h
  constructor
  · intro hsig res hres
    rw [SignalsRetry] at hsig
    cases hout : (first.exec env n txn).outcome with
    | ok r =>
        rw [hout] at h hsig
        rw [h] at hsig
        cases hsig
    | error e =>
        rw [hout] at hsig
        -- the cache is all that differs, and the reference does not speak of it
        obtain ⟨cache', hrun⟩ := exec_orElse_of_exception env second hout
          (by rw [hsig]; rfl)
        rw [hrun, ← hres]
        exact ⟨rfl, rfl, rfl⟩
  · intro r hout _
    exact exec_orElse_of_ok env hout
  · intro e hout hsig
    rw [SignalsRetry, hout] at hsig
    rw [hout] at h
    exact exec_orElse_of_baseException env hout fun he => hsig (h he)

/-- **Where `_or_else` is `orElse`.**  It meets the reference, in which the second
alternative runs with the retry flag down, whatever this alternative is, if and only if the
first one signals retry by exception only and raises no other `Exception`. -/
theorem orElseSpec_iff (env : ℕ → ι → TVar V) (n : ℕ) (txn : Transaction ι V)
    (first : Body ι V R) :
    (∀ second, OrElseSpec env n txn first second) ↔ RetriesByException env n txn first := by
  refine ⟨fun hspec => ?_, fun h second => .of_retriesByException h second⟩
  rw [RetriesByException]
  cases hout : (first.exec env n txn).outcome with
  | ok r =>
      -- with the flag raised, the code returns where `second` raises
      by_contra hflag
      have hsig : SignalsRetry env n txn first := by
        rw [SignalsRetry, hout]
        simpa using hflag
      obtain ⟨hraise, -⟩ := (hspec (.raise .retryException)).fallThrough hsig _ rfl
      rw [exec_orElse_of_ok env hout, hout] at hraise
      cases hraise
  | error e =>
      -- the code runs `second`, which raises another exception
      intro he
      by_contra hne
      have hsig : ¬ SignalsRetry env n txn first := by
        rw [SignalsRetry, hout]
        exact hne
      have hrun := (hspec (.raise .retryException)).raised e hout hsig
      obtain ⟨cache', hcode⟩ := exec_orElse_of_exception env
        (.raise .retryException) hout he
      rw [hcode] at hrun
      have hraise := congrArg Result.outcome hrun
      rw [hout] at hraise
      cases hraise
      exact hne rfl

/-! ## The demo -/

/-- The two accounts of the demo. -/
inductive DemoAcc where
  | accX
  | accY
  deriving DecidableEq

/-- `try_x` of the demo: take 500 from X, or signal retry by the method. -/
def tryX : Body DemoAcc Int (Option String) :=
  .readTvar .accX fun bal =>
    if bal ≥ 500 then .writeTvar .accX (bal - 500) (.done (some "took from X"))
    else .retryFlag (.done none)

/-- `try_y` of the demo. -/
def tryY : Body DemoAcc Int (Option String) :=
  .readTvar .accY fun bal =>
    .writeTvar .accY (bal - 500) (.done (some s!"took from Y (balance was {bal})"))

/-- The demo's balances. -/
def demoStore : DemoAcc → TVar Int
  | .accX => ⟨10, 0⟩
  | .accY => ⟨1000, 0⟩

/-- **The demo fails.**  `try_x` signals retry by the method, and `_or_else` returns its
`None` with the flag raised. -/
theorem not_orElseSpec_demo : ¬ OrElseSpec (fun _ => demoStore) 0 .init tryX tryY := by
  intro hspec
  have hsig : SignalsRetry (fun _ => demoStore) 0 .init tryX := rfl
  obtain ⟨-, -, hflag⟩ := hspec.fallThrough hsig _ rfl
  cases hflag

/-! ## The choice under interleaving -/

/-- The body aborts only by the module function `retry()`. -/
def Body.AbortsByRetry : Body ι V R → Prop
  | .done _ => True
  | .raise _ => False
  | .readTvar _ k => ∀ v, (k v).AbortsByRetry
  | .writeTvar _ _ k => k.AbortsByRetry
  | .retryFlag k => k = .raise .retryException
  | .shouldRetry k => ∀ b, (k b).AbortsByRetry
  | .copySets k => ∀ reads writes, (k reads writes).AbortsByRetry
  | .restoreSets _ _ k => k.AbortsByRetry

/-- The run of `first` in an attempt that has made the accesses `rs` so far; accesses
after these would find `tvars`. -/
def firstRun (first : Body ι V R) (tvars : ι → TVar V) (rs : List (ι × TVar V)) :
    Result ι V R :=
  first.exec (follow tvars rs) 0 .init

section Choice

variable {θ P : Type} [DecidableEq θ] {prog : P → Body ι V R}

/-- In every run: when an attempt at `_or_else(t, first, second)` that fell through to
`second` reaches its commit point, `first` run alone on the TVars aborts. -/
def FallThroughValidated (prog : P → Body ι V R) (values : ι → V) : Prop :=
  ∀ (h : List (Event θ ι V R P)) (s s' : State θ ι V R P) (a : Action θ P) (i : θ) (p : P)
    (txn : Transaction ι V) (r : R) (first second : Body ι V R),
    Run (step prog) anyStep (State.create values) h s →
    step prog s a = some (.commitStart i p txn r, s') →
    prog p = orElse first second → first.AbortsByRetry →
    (firstRun first s.tvars (attemptReads i h)).outcome = .error .retryException →
      (first.runAlone s.tvars).outcome = .error .retryException

omit [DecidableEq θ] in
/-- The accesses of `first` are accesses of `_or_else`. -/
theorem reads_first_subset (env : ℕ → ι → TVar V) (first second : Body ι V R) (n : ℕ)
    (txn : Transaction ι V) :
    ∀ a ∈ (first.exec env n txn).reads, a ∈ ((orElse first second).exec env n txn).reads := by
  intro a ha
  rw [Body.exec_orElse]
  split
  · exact ha
  · split
    · exact List.mem_append_left _ ha
    · exact ha

/-- **When the choice stands.**  If an attempt at `_or_else(t, first, second)` fell
through because `first` raised, and at its commit point every TVar that `first` accessed
has the version it found, then `first` run alone on the TVars raises the same. -/
theorem run_fallThrough {values : ι → V} {h : List (Event θ ι V R P)} {s s' : State θ ι V R P}
    (hr : Run (step prog) anyStep (State.create values) h s) {a : Action θ P} {i : θ} {p : P}
    {txn : Transaction ι V} {r : R} (hs : step prog s a = some (.commitStart i p txn r, s'))
    {first second : Body ι V R} (hp : prog p = orElse first second) {e : Exn}
    (hfirst : (firstRun first s.tvars (attemptReads i h)).outcome = .error e)
    (hsame : ∀ x ∈ (firstRun first s.tvars (attemptReads i h)).reads,
      x.2.version = (s.tvars x.1).version) :
    (first.runAlone s.tvars).outcome = .error e := by
  have hrun := run_phaseRun hr (fun _ => rfl) i
  have hphase : s.phase i = .commitValidate p txn r [] := by
    cases step_move hs with
    | commitStart hph => exact hph
  rw [hphase] at hrun
  have hwhole := hrun.2 _ (follows_follow s.tvars (attemptReads i h))
  rw [hp] at hwhole
  -- every access of `first` found the TVar as it is now
  have hcur : ∀ x ∈ (firstRun first s.tvars (attemptReads i h)).reads, s.tvars x.1 = x.2 := by
    intro x hx
    have hmem := reads_first_subset _ first second 0 .init x hx
    rw [hwhole] at hmem
    exact ((run_readsSound hr i x hmem).2 (hsame x hx)).symm
  rw [Body.runAlone, Body.exec_eq_of_reads _ _ first 0 0 .init hcur]
  exact hfirst

end Choice

/-! ## A choice that no longer stands -/

/-- Wait until TVar 0 is not 0. -/
def awaitNonzero : Body Bool ℕ String :=
  .readTvar false fun v => if v = 0 then retry else .done "first"

/-- Mark TVar 1. -/
def markOther : Body Bool ℕ String := .writeTvar true 1 (.done "second")

/-- Thread 0 runs `_or_else`, thread 1 sets TVar 0. -/
def awaitOrMark : Bool → Body Bool ℕ String
  | false => orElse awaitNonzero markOther
  | true => .writeTvar false 1 (.done "set")

/-- Thread 0 falls through; if `setFirst`, thread 1 then sets TVar 0 and commits; thread 0
goes on to its commit point. -/
def fallThroughSchedule (setFirst : Bool) : List (Action Bool Bool) :=
  [.call false false] ++ List.replicate 8 (.sched false) ++
    (if setFirst then .call true true :: List.replicate 9 (.sched true) else []) ++
    List.replicate 2 (.sched false)

theorem run_fallThrough_markOther :
    ∃ (h : List (Event Bool Bool ℕ String Bool)) (s : State Bool Bool ℕ String Bool),
      Run (step awaitOrMark) anyStep (State.create fun _ => 0) h s ∧
        (awaitNonzero.runAlone s.tvars).outcome = .error .retryException := by
  have hr := run_of_replay (step awaitOrMark) (s := State.create fun _ => 0)
    (fallThroughSchedule false) rfl
  exact ⟨_, _, hr, run_fallThrough hr (a := .sched false) rfl rfl rfl (by
    intro x hx
    rw [List.mem_singleton.mp hx]
    rfl)⟩

/-- **The choice is not validated.**  Thread 0 commits through the second alternative
although the first would no longer abort. -/
theorem not_fallThroughValidated :
    ¬ FallThroughValidated (θ := Bool) awaitOrMark fun _ => 0 := by
  intro hvalid
  have hr := run_of_replay (step awaitOrMark) (s := State.create fun _ => 0)
    (fallThroughSchedule true) rfl
  have haborts : awaitNonzero.AbortsByRetry := by
    intro v
    show Body.AbortsByRetry (if v = 0 then retry else Body.done "first")
    split_ifs
    · rfl
    · trivial
  have hstale := hvalid _ _ _ (.sched false) false false _ _ awaitNonzero markOther hr rfl rfl
    haborts rfl
  cases hstale

end Stm
