/-
# Workers that compute Fibonacci numbers (`haskell/stackful/ProcessDemo.hs`,
`erlang/process_demo.erl`)

The Haskell program starts a thread for each number, each with an `MVar` of its own for the result,
and takes the results one after the other.  The Erlang processes all send theirs to the mailbox of
the process that has started them, which collects as many messages as it has started processes, and
sorts them.

* `concurrentFib_determined` : the threads may run in any order, the results come in the order of
  the arguments;
* `collect_results_eq` : whatever the order of the messages, the Erlang program prints the same.
-/
import Cocurrency.Lib.Network
import Mathlib.Data.Fin.Basic
import Mathlib.Data.List.FinRange
import Mathlib.Data.Nat.Fib.Basic

namespace Coroutine

namespace ProcessDemo

open Network (Instr Process Reaches)

/-- `fib`, of the natural numbers that both programs ask for. -/
def fib : ℕ → ℕ
  | 0 => 0
  | 1 => 1
  | n + 2 => fib (n + 1) + fib n

theorem fib_eq (n : ℕ) : fib n = Nat.fib n := by
  induction n using fib.induct with
  | case1 => rfl
  | case2 => rfl
  | case3 n ih₁ ih₂ => rw [fib, ih₁, ih₂, Nat.fib_add_two, Nat.add_comm]

/-! ## Haskell -/

/-- The line of a thread, and that of the main one for a result. -/
inductive ResultLine where
  | computed (n r : ℕ)
  | result (n r : ℕ)
  deriving DecidableEq

variable {workers : ℕ}

/-- Where a thread is in its code. -/
inductive Control (workers : ℕ) where
  /-- `mapM concurrentFib fibArgs` -/
  | forking (rest : List (Fin workers))
  /-- `mapM takeMVar mvars` -/
  | taking (rest : List (Fin workers)) (results : List ℕ)
  /-- `forM_ (zip fibArgs results)` -/
  | printing (rest : List (ℕ × ℕ))
  /-- the thread of `concurrentFib` -/
  | computing (i : Fin workers)
  | putting (i : Fin workers)
  | returned

/-- The lines of the main thread. -/
def printCode : List (ℕ × ℕ) → Instr (Option (Fin workers)) (Fin workers) ℕ ResultLine
    (Control workers)
  | [] => .finished
  | (n, r) :: rest => .print (.result n r) (.printing rest)

/-- The results, one after the other. -/
def takeCode (fibArgs : Fin workers → ℕ) (results : List ℕ) :
    List (Fin workers) → Instr (Option (Fin workers)) (Fin workers) ℕ ResultLine (Control workers)
  | [] => printCode ((List.ofFn fibArgs).zip results)
  | i :: rest => .recv i fun r => .taking rest (results ++ r.toList)

/-- The code of `main` and of the forked threads. -/
def code (fibArgs : Fin workers → ℕ) :
    Control workers →
      Instr (Option (Fin workers)) (Fin workers) ℕ ResultLine (Control workers)
  | .forking (i :: rest) => .spawn (some i) (.forking rest)
  | .forking [] => takeCode fibArgs [] (List.finRange workers)
  | .taking rest results => takeCode fibArgs results rest
  | .printing rest => printCode rest
  | .computing i => .print (.computed (fibArgs i) (fib (fibArgs i))) (.putting i)
  | .putting i => .send i (fib (fibArgs i)) .returned
  | .returned => .finished

/-- `main` is `none`; an `MVar` holds one value. -/
def net (fibArgs : Fin workers → ℕ) :
    Network (Option (Fin workers)) (Fin workers) ℕ ResultLine (Control workers) where
  code := code fibArgs
  entry
    | none => .forking (List.finRange workers)
    | some i => .computing i
  starter
    | none => none
    | some _ => some none
  sender i := some i
  receiver _ := none
  capacity _ := 1

/-- The main thread at `k`. -/
def mainAt (k : Control workers) (forked : List (Fin workers)) (taken : List (Fin workers)) :
    Process (Option (Fin workers)) (Fin workers) ℕ (Control workers) where
  phase := .running k
  sent _ := []
  taken i := if i ∈ taken then 1 else 0
  closed _ := false
  started
    | none => false
    | some i => decide (i ∈ forked)

/-- A thread that has put its result. -/
def workerDone (fibArgs : Fin workers → ℕ) (i : Fin workers) :
    Process (Option (Fin workers)) (Fin workers) ℕ (Control workers) where
  phase := .running .returned
  sent := Function.update (fun _ => []) i [fib (fibArgs i)]
  taken _ := 0
  closed _ := false
  started _ := false

/-- The main thread, and the others, of which `done` have put their results. -/
def state (fibArgs : Fin workers → ℕ)
    (m : Process (Option (Fin workers)) (Fin workers) ℕ (Control workers))
    (done : List (Fin workers)) :
    Option (Fin workers) → Process (Option (Fin workers)) (Fin workers) ℕ (Control workers)
  | none => m
  | some i => if i ∈ done then workerDone fibArgs i else (net fibArgs).start (some i)

variable {fibArgs : Fin workers → ℕ}
  {m m' : Process (Option (Fin workers)) (Fin workers) ℕ (Control workers)}
  {done : List (Fin workers)}

theorem update_main : Function.update (state fibArgs m done) none m' = state fibArgs m' done := by
  funext t
  cases t with
  | none => rw [Function.update_self, state]
  | some i => rw [Function.update_of_ne (by simp), state, state]

theorem update_worker (i : Fin workers) :
    Function.update (state fibArgs m done) (some i) (workerDone fibArgs i) =
      state fibArgs m (i :: done) := by
  funext t
  cases t with
  | none => rw [Function.update_of_ne (by simp), state, state]
  | some j =>
      rcases eq_or_ne j i with rfl | hne
      · rw [Function.update_self, state, if_pos List.mem_cons_self]
      · rw [Function.update_of_ne (fun h => hne (Option.some.inj h)), state, state]
        simp [hne]

theorem sender_eq (fibArgs : Fin workers → ℕ) (i : Fin workers) :
    (net fibArgs).sender i = some i := rfl

theorem receiver_eq (fibArgs : Fin workers → ℕ) (i : Fin workers) :
    (net fibArgs).receiver i = none := rfl

/-- A step of the main thread. -/
theorem main_step (fibArgs : Fin workers → ℕ) (done : List (Fin workers)) (k : Control workers)
    (m m' : Process (Option (Fin workers)) (Fin workers) ℕ (Control workers))
    (e : Network.Event (Option (Fin workers)) (Fin workers) ℕ ResultLine)
    (hphase : m.phase = .running k)
    (he : (net fibArgs).exec (state fibArgs m done) none (code fibArgs k) = some (e, m')) :
    (net fibArgs).Reaches (state fibArgs m done) (state fibArgs m' done)
      fun t => if t = none then e.output.toList else [] := by
  have hstep : (net fibArgs).processStep (state fibArgs m done) none = some (e, m') := by
    rw [Network.processStep_running (k := k) rfl hphase]
    exact he
  have hreaches := Reaches.single hstep
  rwa [update_main] at hreaches

/-- The main thread starts the others. -/
theorem forks (fibArgs : Fin workers → ℕ) (rest forked : List (Fin workers)) :
    (net fibArgs).Reaches (state fibArgs (mainAt (.forking rest) forked []) [])
      (state fibArgs (mainAt (.forking []) (rest.reverse ++ forked) []) []) fun _ => [] := by
  induction rest generalizing forked with
  | nil => exact Reaches.refl _
  | cons i rest ih =>
      have hstarted : Function.update (mainAt (.forking (i :: rest)) forked []).started (some i)
          true = (mainAt (.forking rest) (i :: forked) []).started := by
        funext t
        cases t with
        | none => rfl
        | some j =>
            rcases eq_or_ne j i with rfl | hne
            · simp [mainAt]
            · simp [mainAt, Function.update, hne]
      have hfirst := main_step fibArgs [] (.forking (i :: rest))
        (mainAt (.forking (i :: rest)) forked []) (mainAt (.forking rest) (i :: forked) [])
        (.spawns (some i)) rfl
        (by
          rw [code, Network.exec, show state fibArgs (mainAt (.forking (i :: rest)) forked []) []
            none = mainAt (.forking (i :: rest)) forked [] from rfl, hstarted]
          rfl)
      have hrest := ih (i :: forked)
      rw [List.reverse_cons, List.append_assoc]
      refine (hfirst.trans hrest).cast (funext fun t => ?_)
      simp [Network.Event.output]

/-- A thread that has been started prints its line and puts its result. -/
theorem works (fibArgs : Fin workers → ℕ) {i : Fin workers}
    (hstarted : m.started (some i) = true) (hnot : i ∉ done) :
    (net fibArgs).Reaches (state fibArgs m done) (state fibArgs m (i :: done))
      fun t => if t = some i then [.computed (fibArgs i) (fib (fibArgs i))] else [] := by
  have hself : state fibArgs m done (some i) = .new (.computing i) := by
    rw [state, if_neg hnot]
    rfl
  have hfirst : (net fibArgs).awake (state fibArgs m done) (some i) = true := hstarted
  have hawake : ∀ p, (net fibArgs).awake (Function.update (state fibArgs m done) (some i) p)
      (some i) = true := by
    intro p
    show (Function.update (state fibArgs m done) (some i) p none).started (some i) = true
    rw [Function.update_of_ne (by simp)]
    exact hstarted
  have hprint : (net fibArgs).processStep (state fibArgs m done) (some i) =
      some (.prints (.computed (fibArgs i) (fib (fibArgs i))), .new (.putting i)) := by
    rw [Network.processStep_running hfirst (k := .computing i) (by rw [hself]; rfl)]
    rw [show (net fibArgs).code (.computing i) =
      .print (.computed (fibArgs i) (fib (fibArgs i))) (.putting i) from rfl, Network.exec, hself]
    rfl
  have hoffer : (net fibArgs).processStep
      (Function.update (state fibArgs m done) (some i) (.new (.putting i))) (some i) =
        some (.offers i (fib (fibArgs i)),
          { workerDone fibArgs i with phase := .sending i .returned }) := by
    rw [Network.processStep_running (hawake _) (k := .putting i)
        (by rw [Function.update_self]; rfl),
      show (net fibArgs).code (.putting i) = .send i (fib (fibArgs i)) .returned from rfl,
      Network.exec_send (sender_eq fibArgs i) (by rw [Function.update_self]; rfl),
      Function.update_self]
    rfl
  have hput : (net fibArgs).processStep
      (Function.update (state fibArgs m done) (some i)
        { workerDone fibArgs i with phase := .sending i .returned }) (some i) =
        some (.sends i, workerDone fibArgs i) := by
    rw [Network.processStep_sending i .returned (hawake _) (by rw [Function.update_self]),
      Function.update_self, if_pos]
    · rfl
    · simp [workerDone, net]
  have hprinted := Reaches.single hprint
  have hoffered := Reaches.quiet hoffer rfl
  have hdone := Reaches.quiet hput rfl
  rw [Function.update_idem] at hoffered hdone
  rw [update_worker] at hdone
  refine ((hprinted.trans hoffered).trans hdone).cast (funext fun t => ?_)
  simp [Network.Event.output]

/-- The lines of the threads `l`. -/
def threadLines (fibArgs : Fin workers → ℕ) (l : List (Fin workers)) :
    Option (Fin workers) → List ResultLine
  | none => []
  | some i => if i ∈ l then [.computed (fibArgs i) (fib (fibArgs i))] else []

/-- One thread after the other. -/
theorem work (fibArgs : Fin workers → ℕ) (l done : List (Fin workers))
    (hstarted : ∀ i ∈ l, m.started (some i) = true)
    (hnodup : l.Nodup) (hnot : ∀ i ∈ l, i ∉ done) :
    (net fibArgs).Reaches (state fibArgs m done) (state fibArgs m (l.reverse ++ done))
      (threadLines fibArgs l) := by
  induction l generalizing done with
  | nil =>
      refine (Reaches.refl _).cast (funext fun t => ?_)
      cases t with
      | none => rfl
      | some i => simp [threadLines]
  | cons i l ih =>
      obtain ⟨hi, hl⟩ := List.nodup_cons.mp hnodup
      have hfirst := works fibArgs (hstarted i List.mem_cons_self) (hnot i List.mem_cons_self)
      have hrest := ih (i :: done) (fun j hj => hstarted j (List.mem_cons_of_mem i hj)) hl
        fun j hj hmem => by
          rcases List.mem_cons.mp hmem with rfl | hmem
          · exact hi hj
          · exact hnot j (List.mem_cons_of_mem i hj) hmem
      rw [List.reverse_cons, List.append_assoc]
      refine (hfirst.trans hrest).cast (funext fun t => ?_)
      cases t with
      | none => simp [threadLines]
      | some j =>
          rcases eq_or_ne j i with rfl | hne
          · simp [threadLines, hi]
          · simp [threadLines, hne]

/-- The main thread takes the results that are there. -/
theorem takes (fibArgs : Fin workers → ℕ) (done forked rest : List (Fin workers))
    (k : Control workers) (taken : List (Fin workers)) (results : List ℕ)
    (hk : code fibArgs k = takeCode fibArgs results rest) (hdone : ∀ i ∈ rest, i ∈ done)
    (hnodup : rest.Nodup) (hnot : ∀ i ∈ rest, i ∉ taken) :
    ∃ k' taken',
      code fibArgs k' =
        printCode ((List.ofFn fibArgs).zip (results ++ rest.map fun i => fib (fibArgs i))) ∧
      (net fibArgs).Reaches (state fibArgs (mainAt k forked taken) done)
        (state fibArgs (mainAt k' forked taken') done) fun _ => [] := by
  induction rest generalizing k taken results with
  | nil => exact ⟨k, taken, by rw [hk, List.map_nil, List.append_nil]; rfl, Reaches.refl _⟩
  | cons i rest ih =>
      obtain ⟨hi, hrest⟩ := List.nodup_cons.mp hnodup
      have htaken : Function.update (mainAt k forked taken).taken i 1 =
          (mainAt (.taking rest (results ++ [fib (fibArgs i)])) forked (i :: taken)).taken := by
        funext j
        rcases eq_or_ne j i with rfl | hne
        · simp [mainAt]
        · simp [mainAt, Function.update, hne]
      have hzero : (mainAt k forked taken).taken i = 0 := if_neg (hnot i List.mem_cons_self)
      have hworker : state fibArgs (mainAt k forked taken) done (some i) = workerDone fibArgs i :=
        if_pos (hdone i List.mem_cons_self)
      have hfirst := main_step fibArgs done k (mainAt k forked taken)
        (mainAt (.taking rest (results ++ [fib (fibArgs i)])) forked (i :: taken))
        (.receives i (fib (fibArgs i))) rfl
        (by
          rw [hk, takeCode, Network.exec_recv (receiver_eq fibArgs i) (v := fib (fibArgs i)),
            show state fibArgs (mainAt k forked taken) done none = mainAt k forked taken from rfl,
            hzero, htaken]
          · rfl
          · rw [sender_eq, hworker,
              show state fibArgs (mainAt k forked taken) done none = mainAt k forked taken from rfl,
              hzero]
            simp [workerDone])
      obtain ⟨k', taken', hk', hreaches⟩ := ih (.taking rest (results ++ [fib (fibArgs i)]))
        (i :: taken) (results ++ [fib (fibArgs i)]) rfl
        (fun j hj => hdone j (List.mem_cons_of_mem i hj)) hrest fun j hj hmem => by
          rcases List.mem_cons.mp hmem with rfl | hmem
          · exact hi hj
          · exact hnot j (List.mem_cons_of_mem i hj) hmem
      refine ⟨k', taken', ?_, (hfirst.trans hreaches).cast (funext fun t => ?_)⟩
      · rw [hk', List.append_assoc]
        rfl
      · simp [Network.Event.output]

/-- It prints the results. -/
theorem prints (fibArgs : Fin workers → ℕ) (done forked taken : List (Fin workers))
    (pairs : List (ℕ × ℕ)) (k : Control workers)
    (hk : code fibArgs k = printCode pairs) :
    ∃ k', code fibArgs k' = .finished ∧
      (net fibArgs).Reaches (state fibArgs (mainAt k forked taken) done)
        (state fibArgs (mainAt k' forked taken) done)
        fun t => if t = none then pairs.map fun p => .result p.1 p.2 else [] := by
  induction pairs generalizing k with
  | nil => exact ⟨k, hk, (Reaches.refl _).cast (funext fun t => by simp)⟩
  | cons p rest ih =>
      obtain ⟨n, r⟩ := p
      have hfirst := main_step fibArgs done k (mainAt k forked taken)
        (mainAt (.printing rest) forked taken) (.prints (.result n r)) rfl
        (by
          rw [hk]
          rfl)
      obtain ⟨k', hk', hreaches⟩ := ih (.printing rest) rfl
      refine ⟨k', hk', (hfirst.trans hreaches).cast (funext fun t => ?_)⟩
      split
      · rfl
      · rfl

/-- **The threads.**  Under every schedule each thread prints its number, the main thread prints the
results in the order of the arguments, and all threads return. -/
theorem concurrentFib_determined (fibArgs : Fin workers → ℕ) :
    ∃ final, (net fibArgs).Determined final
        (fun
          | none => List.ofFn fun i => .result (fibArgs i) (Nat.fib (fibArgs i))
          | some i => [.computed (fibArgs i) (Nat.fib (fibArgs i))]) ∧
      ∀ t, (net fibArgs).isFinished (final t) = true := by
  have hnodup : (List.finRange workers).Nodup := List.nodup_finRange workers
  have hstart : (net fibArgs).start =
      state fibArgs (mainAt (.forking (List.finRange workers)) [] []) [] := by
    funext t
    cases t with
    | none =>
        have hstarted : (mainAt (.forking (List.finRange workers)) [] []).started =
            fun _ => false := by
          funext t
          cases t with
          | none => rfl
          | some i => simp [mainAt]
        have hmain : mainAt (.forking (List.finRange workers)) [] [] =
            ⟨.running (.forking (List.finRange workers)), fun _ => [], fun _ => 0, fun _ => false,
              fun _ => false⟩ := by
          rw [← hstarted]
          simp [mainAt]
        rw [state, hmain]
        rfl
    | some i => rfl
  have hforks := forks fibArgs (List.finRange workers) []
  rw [List.append_nil] at hforks
  have hwork := work fibArgs
    (m := mainAt (.forking []) (List.finRange workers).reverse []) (List.finRange workers) []
    (fun i _ => by simp [mainAt]) hnodup fun _ _ => List.not_mem_nil
  rw [List.append_nil] at hwork
  obtain ⟨k, taken, hk, htakes⟩ := takes fibArgs (List.finRange workers).reverse
    (List.finRange workers).reverse (List.finRange workers) (.forking []) [] [] rfl
    (fun i _ => by simp) hnodup fun _ _ => List.not_mem_nil
  obtain ⟨k', hk', hprints⟩ := prints fibArgs (List.finRange workers).reverse
    (List.finRange workers).reverse taken _ k hk
  have hall := ((hforks.trans hwork).trans htakes).trans hprints
  rw [← hstart] at hall
  have hfinished : ∀ t, (net fibArgs).isFinished (state fibArgs
      (mainAt k' (List.finRange workers).reverse taken) (List.finRange workers).reverse t) =
        true := by
    intro t
    cases t with
    | none => exact Network.isFinished_of_code (k := k') rfl hk'
    | some i =>
        rw [state, if_pos (by simp)]
        rfl
  refine ⟨_, Reaches.determined_of_finished (hall.cast (funext fun t => ?_)) hfinished, hfinished⟩
  cases t with
  | none => simp [threadLines, fib_eq, List.ofFn_eq_map, List.zip_map', Function.comp_def]
  | some i => simp [threadLines, fib_eq]

/-! ## Erlang -/

namespace Erlang

/-- A message `{fib_result, N, Result}`. -/
abbrev FibResult := ℕ × ℕ

/-- The process of `test()`. -/
inductive Test where
  /-- `lists:foreach(fun(N) -> fib(N) end, ...)` -/
  | spawning (rest : List ℕ)
  /-- `collect_results(N, Acc)` -/
  | collecting (left : ℕ) (acc : List FibResult)
  | finished
  deriving DecidableEq

/-- The numbers that are being computed, each by a process, and the mailbox of `test()`. -/
structure State where
  test : Test
  running : List ℕ
  mailbox : List FibResult
  deriving DecidableEq

/-- Who goes on. -/
inductive Act where
  | test
  /-- The process in place `i` sends its result. -/
  | process (i : ℕ)
  deriving DecidableEq

/-- What a step shows. -/
inductive Event where
  | spawned (n : ℕ)
  | collects
  | received (msg : FibResult)
  | sent (msg : FibResult)
  | printed (lines : List FibResult)
  deriving DecidableEq

/-- `lists:sort(fun({_, A, _}, {_, B, _}) -> A =< B end, Results)`. -/
def sorted (results : List FibResult) : List FibResult :=
  results.mergeSort fun a b => decide (a.1 ≤ b.1)

/-- No process has been spawned. -/
def start (ns : List ℕ) : State := ⟨.spawning ns, [], []⟩

/-- `count` results are collected. -/
def step (count : ℕ) (s : State) : Act → Option (Event × State)
  | .test =>
      match s.test with
      | .spawning (n :: rest) =>
          some (.spawned n, { s with test := .spawning rest, running := s.running ++ [n] })
      | .spawning [] => some (.collects, { s with test := .collecting count [] })
      | .collecting 0 acc => some (.printed (sorted acc), { s with test := .finished })
      | .collecting (left + 1) acc =>
          match s.mailbox with
          | msg :: rest =>
              some (.received msg,
                { s with test := .collecting left (msg :: acc), mailbox := rest })
          | [] => none
      | .finished => none
  | .process i =>
      match s.running[i]? with
      | some n =>
          some (.sent (n, fib n),
            { s with running := s.running.eraseIdx i, mailbox := s.mailbox ++ [(n, fib n)] })
      | none => none

/-- The numbers that are still to be started. -/
def Test.rest : Test → List ℕ
  | .spawning rest => rest
  | _ => []

/-- The results that have been received. -/
def Test.acc : Test → List FibResult
  | .collecting _ acc => acc
  | _ => []

variable {ns : List ℕ} {hist : List Event} {s s' : State} {e : Event}

/-- Every number is somewhere on its way, and every result is right. -/
structure Ok (ns : List ℕ) (hist : List Event) (s : State) : Prop where
  perm : s.test ≠ .finished →
    (s.test.rest ++ s.running ++ (s.mailbox ++ s.test.acc).map Prod.fst).Perm ns
  right : ∀ msg ∈ s.mailbox ++ s.test.acc, msg.2 = Nat.fib msg.1
  left : ∀ left acc, s.test = .collecting left acc → left = s.running.length + s.mailbox.length
  printed : ∀ lines, .printed lines ∈ hist →
    lines = (ns.mergeSort).map fun n => (n, Nat.fib n)
  finished : s.test = .finished → s.running = [] ∧
    .printed ((ns.mergeSort).map fun n => (n, Nat.fib n)) ∈ hist

theorem Ok.start (ns : List ℕ) : Ok ns [] (start ns) where
  perm _ := by simp [Erlang.start, Test.rest, Test.acc]
  right _ h := by cases h
  left _ _ h := by cases h
  printed _ h := by cases h
  finished h := by cases h

/-- What has been collected, sorted by its numbers, is the numbers sorted with their results. -/
theorem sorted_eq {results : List FibResult} (hperm : (results.map Prod.fst).Perm ns)
    (hright : ∀ msg ∈ results, msg.2 = Nat.fib msg.1) :
    sorted results = (ns.mergeSort).map fun n => (n, Nat.fib n) := by
  have hfst : (sorted results).map Prod.fst = (results.map Prod.fst).mergeSort :=
    List.map_mergeSort fun _ _ _ _ => rfl
  have hsorted : ∀ l : List ℕ, l.mergeSort.Pairwise fun a b => decide (a ≤ b) = true :=
    List.pairwise_mergeSort (by simp only [decide_eq_true_eq]; exact fun _ _ _ => Nat.le_trans)
      (by simp only [Bool.or_eq_true, decide_eq_true_eq]; exact Nat.le_total)
  have hsame : (results.map Prod.fst).mergeSort = ns.mergeSort := by
    apply List.Perm.eq_of_pairwise _ (hsorted _) (hsorted _)
    · exact ((List.mergeSort_perm _ _).trans hperm).trans (List.mergeSort_perm _ _).symm
    · intro a b _ _ hab hba
      exact Nat.le_antisymm (of_decide_eq_true hab) (of_decide_eq_true hba)
  rw [← hsame, ← hfst, List.map_map]
  have hself : ∀ msg ∈ sorted results, ((fun n => (n, Nat.fib n)) ∘ Prod.fst) msg = id msg := by
    intro msg hmsg
    have hmem : msg ∈ results := List.mem_mergeSort.mp hmsg
    rw [Function.comp_apply, ← hright msg hmem]
    rfl
  rw [List.map_congr_left hself, List.map_id]

/-- A step that prints nothing and after which `test()` has not ended. -/
theorem Ok.of_quiet (h : Ok ns hist s) (he : ∀ lines, e ≠ .printed lines)
    (hnot : s'.test ≠ .finished)
    (hperm : (s'.test.rest ++ s'.running ++ (s'.mailbox ++ s'.test.acc).map Prod.fst).Perm ns)
    (hright : ∀ msg ∈ s'.mailbox ++ s'.test.acc, msg.2 = Nat.fib msg.1)
    (hleft : ∀ left acc, s'.test = .collecting left acc →
      left = s'.running.length + s'.mailbox.length) :
    Ok ns (hist ++ [e]) s' where
  perm _ := hperm
  right := hright
  left := hleft
  printed lines hmem := by
    rcases List.mem_append.mp hmem with hmem | hmem
    · exact h.printed lines hmem
    · exact absurd (List.mem_singleton.mp hmem).symm (he lines)
  finished hat := absurd hat hnot

/-- `fib(N)` spawns a process for the next number. -/
theorem Ok.spawns (h : Ok ns hist s) {n : ℕ} {rest : List ℕ}
    (htest : s.test = .spawning (n :: rest)) :
    Ok ns (hist ++ [.spawned n])
      { s with test := .spawning rest, running := s.running ++ [n] } := by
  have hperm := h.perm (by rw [htest]; exact Test.noConfusion)
  have hright := h.right
  simp only [htest, Test.rest, Test.acc, List.append_nil] at hperm hright
  refine h.of_quiet (fun _ => Event.noConfusion) Test.noConfusion ?_ ?_ fun _ _ hat => by cases hat
  · refine List.Perm.trans ?_ hperm
    simp only [Test.rest, Test.acc, List.append_nil]
    apply List.Perm.append_right
    rw [← List.append_assoc]
    exact (List.perm_append_singleton n _).trans (List.Perm.refl _)
  · simpa only [Test.acc, List.append_nil] using hright

/-- With all processes spawned there are as many results to come as there are numbers. -/
theorem Ok.collects (h : Ok ns hist s) (htest : s.test = .spawning []) :
    Ok ns (hist ++ [.collects]) { s with test := .collecting ns.length [] } := by
  have hperm := h.perm (by rw [htest]; exact Test.noConfusion)
  have hright := h.right
  simp only [htest, Test.rest, Test.acc, List.append_nil] at hperm hright
  refine h.of_quiet (fun _ => Event.noConfusion) Test.noConfusion ?_ ?_ fun left acc hat => ?_
  · simpa only [Test.rest, Test.acc, List.append_nil] using hperm
  · simpa only [Test.acc, List.append_nil] using hright
  · cases hat
    have hlen := hperm.length_eq
    simp only [List.nil_append, List.length_append, List.length_map] at hlen
    exact hlen.symm

/-- The first result of the mailbox is taken. -/
theorem Ok.receives (h : Ok ns hist s) {left : ℕ} {acc rest : List FibResult} {msg : FibResult}
    (htest : s.test = .collecting (left + 1) acc) (hmailbox : s.mailbox = msg :: rest) :
    Ok ns (hist ++ [.received msg])
      { s with test := .collecting left (msg :: acc), mailbox := rest } := by
  have hperm := h.perm (by rw [htest]; exact Test.noConfusion)
  have hright := h.right
  have hleft := h.left _ acc htest
  simp only [htest, Test.rest, Test.acc, List.nil_append] at hperm hright
  rw [hmailbox] at hperm hright hleft
  have hmiddle : (rest ++ msg :: acc).Perm (msg :: rest ++ acc) := List.perm_middle
  refine h.of_quiet (fun _ => Event.noConfusion) Test.noConfusion ?_ ?_ fun left' acc' hat => ?_
  · refine List.Perm.trans ?_ hperm
    apply List.Perm.append_left
    exact hmiddle.map Prod.fst
  · intro msg' hmem
    exact hright msg' (hmiddle.subset hmem)
  · cases hat
    simp only [List.length_cons] at hleft ⊢
    omega

/-- With no result left to come, those that have are the results of all numbers. -/
theorem Ok.prints (h : Ok ns hist s) {acc : List FibResult} (htest : s.test = .collecting 0 acc) :
    Ok ns (hist ++ [.printed (sorted acc)]) { s with test := .finished } := by
  have hperm := h.perm (by rw [htest]; exact Test.noConfusion)
  have hright := h.right
  have hleft := h.left 0 acc htest
  simp only [htest, Test.rest, Test.acc, List.nil_append] at hperm hright
  have hrunning : s.running = [] := List.eq_nil_of_length_eq_zero (by omega)
  have hmailbox : s.mailbox = [] := List.eq_nil_of_length_eq_zero (by omega)
  rw [hrunning, hmailbox, List.nil_append, List.nil_append] at hperm
  rw [hmailbox, List.nil_append] at hright
  have hsorted := sorted_eq hperm hright
  refine ⟨fun hne => absurd rfl hne, ?_, fun _ _ hat => (by cases hat), fun lines hmem => ?_,
    fun _ => ⟨hrunning, ?_⟩⟩
  · rw [hmailbox]
    exact List.forall_mem_nil _
  · rcases List.mem_append.mp hmem with hmem | hmem
    · exact h.printed lines hmem
    · cases List.mem_singleton.mp hmem
      exact hsorted
  · rw [← hsorted]
    exact List.mem_append_right _ (List.mem_singleton_self _)

/-- The process in place `i` sends its result, and is gone. -/
theorem Ok.sends (h : Ok ns hist s) {i n : ℕ} (hi : s.running[i]? = some n) :
    Ok ns (hist ++ [.sent (n, fib n)])
      { s with running := s.running.eraseIdx i, mailbox := s.mailbox ++ [(n, fib n)] } := by
  have hrunning : (n :: s.running.eraseIdx i).Perm s.running := by
    obtain ⟨hlt, rfl⟩ := List.getElem?_eq_some_iff.mp hi
    exact List.getElem_cons_eraseIdx_perm hlt
  have hnot : s.test ≠ .finished := by
    intro hat
    rw [(h.finished hat).1] at hi
    cases hi
  refine h.of_quiet (fun _ => Event.noConfusion) hnot (List.Perm.trans ?_ (h.perm hnot))
    (fun msg hmem => ?_) fun left acc hat => ?_
  · show (s.test.rest ++ s.running.eraseIdx i ++
      (s.mailbox ++ [(n, fib n)] ++ s.test.acc).map Prod.fst).Perm _
    rw [List.append_assoc s.mailbox, List.map_append, List.map_append, List.append_assoc,
      List.append_assoc]
    apply List.Perm.append_left
    have hsplit : (s.mailbox ++ s.test.acc).map Prod.fst =
        s.mailbox.map Prod.fst ++ s.test.acc.map Prod.fst := List.map_append
    rw [hsplit]
    have hback : (s.running.eraseIdx i ++ (s.mailbox.map Prod.fst ++
        ([(n, fib n)] ++ s.test.acc).map Prod.fst)).Perm
          (n :: s.running.eraseIdx i ++ (s.mailbox.map Prod.fst ++ s.test.acc.map Prod.fst)) := by
      rw [← List.append_assoc, ← List.append_assoc]
      exact List.perm_middle
    exact hback.trans (hrunning.append_right _)
  · rcases List.mem_append.mp hmem with hmem | hmem
    · rcases List.mem_append.mp hmem with hmem | hmem
      · exact h.right msg (List.mem_append_left _ hmem)
      · rw [List.mem_singleton.mp hmem]
        exact fib_eq n
    · exact h.right msg (List.mem_append_right _ hmem)
  · have hleft := h.left left acc hat
    have hlen := hrunning.length_eq
    simp only [List.length_cons, List.length_append, List.length_nil] at hleft hlen ⊢
    omega

theorem Ok.step (h : Ok ns hist s) {a : Act} (hs : step ns.length s a = some (e, s')) :
    Ok ns (hist ++ [e]) s' := by
  cases a with
  | test =>
      rw [Erlang.step] at hs
      split at hs
      · next n rest htest =>
        cases hs
        exact h.spawns htest
      · next htest =>
        cases hs
        exact h.collects htest
      · next acc htest =>
        cases hs
        exact h.prints htest
      · next left acc htest =>
        split at hs
        · next msg rest hmailbox =>
          cases hs
          exact h.receives htest hmailbox
        · cases hs
      · cases hs
  | process i =>
      rw [Erlang.step] at hs
      split at hs
      · next n hi =>
        cases hs
        exact h.sends hi
      · cases hs

/-- What is still to be done. -/
def State.toDo (s : State) : ℕ :=
  3 * s.test.rest.length + 2 * s.running.length + s.mailbox.length +
    match s.test with
    | .spawning _ => 2
    | .collecting _ _ => 1
    | .finished => 0

theorem toDo_lt {count : ℕ} {a : Act} (hs : step count s a = some (e, s')) : s'.toDo < s.toDo := by
  unfold State.toDo
  cases a with
  | test =>
      rw [Erlang.step] at hs
      split at hs
      · next n rest htest =>
        cases hs
        simp only [htest, Test.rest, List.length_cons, List.length_append, List.length_nil]
        omega
      · next htest =>
        cases hs
        simp only [htest, Test.rest, List.length_nil]
        omega
      · next acc htest =>
        cases hs
        simp only [htest, Test.rest, List.length_nil]
        omega
      · next left acc htest =>
        split at hs
        · next msg rest hmailbox =>
          cases hs
          simp only [htest, hmailbox, Test.rest, List.length_cons, List.length_nil]
          omega
        · cases hs
      · cases hs
  | process i =>
      rw [Erlang.step] at hs
      split at hs
      · next n hi =>
        cases hs
        obtain ⟨hlt, -⟩ := List.getElem?_eq_some_iff.mp hi
        have hlen := List.length_eraseIdx_of_lt hlt
        simp only [List.length_append, List.length_cons, List.length_nil]
        omega
      · cases hs

/-- Where nobody can go on, all results have been printed. -/
theorem Ok.stuck (h : Ok ns hist s) {count : ℕ}
    (hstuck : ∀ a, Erlang.step count s a = none) :
    s.test = .finished := by
  have htest := hstuck .test
  rw [Erlang.step] at htest
  cases hat : s.test with
  | spawning rest =>
      rw [hat] at htest
      cases rest with
      | nil => cases htest
      | cons n rest => cases htest
  | finished => rfl
  | collecting left acc =>
      rw [hat] at htest
      have hleft := h.left left acc hat
      cases left with
      | zero => cases htest
      | succ left =>
          dsimp only at htest
          cases hmailbox : s.mailbox with
          | cons msg rest =>
              rw [hmailbox] at htest
              cases htest
          | nil =>
              -- some process has not sent its result
              rw [hmailbox, List.length_nil, Nat.add_zero] at hleft
              have hprocess := hstuck (.process 0)
              rw [Erlang.step] at hprocess
              cases hrunning : s.running with
              | nil =>
                  rw [hrunning] at hleft
                  cases hleft
              | cons n rest =>
                  rw [hrunning] at hprocess
                  cases hprocess

/-- **`collect_results`.**  In whatever order the processes send their results, every run ends, and
prints the numbers in order, each with its Fibonacci number. -/
theorem collect_results_eq (ns : List ℕ) :
    Halts (step ns.length) (start ns) ∧
    ∀ hist s, Run (step ns.length) anyStep (start ns) hist s →
      (∀ lines, .printed lines ∈ hist → lines = ns.mergeSort.map fun n => (n, Nat.fib n)) ∧
      ((∀ a, step ns.length s a = none) →
        .printed (ns.mergeSort.map fun n => (n, Nat.fib n)) ∈ hist) := by
  constructor
  · exact halts_of_measure (fun _ => True) State.toDo
      (fun _ _ _ _ _ hs => ⟨trivial, toDo_lt hs⟩) trivial
  · intro hist s hr
    have hok : Ok ns hist s := hr.invariant (Ok ns) (Ok.start ns)
      fun _ _ _ _ _ h _ hs => h.step hs
    exact ⟨hok.printed, fun hstuck => (hok.finished (hok.stuck hstuck)).2⟩

end Erlang

end ProcessDemo

end Coroutine
