/-
# One sender, one receiver (`go/csp_deep_dive/main.go`, `go/stackless_coroutine/fibonacci.go`,
`kotlin/csp/ChannelDemo.kt`)

`demo1`, `demo2`, `fibonacciGenerator` and the two halves of the Kotlin program have one channel, on
which one loop sends and from which another one receives.  A loop with a counter is written as what
its turns do one after the other; `range` goes on until the channel is closed.

* `Link.run` : each value that is sent is received and printed before the next one;
* `demos_determined`, `fibonacciGenerator_determined`, `kotlin_determined` : the programs do the
  same under every schedule.
-/
import Cocurrency.Lib.NetworkView
import Cocurrency.Coroutine.FixedFibonacci

namespace Csp

namespace Streams

open Network (Instr Process Reaches both lines both_left both_right both_other update_both_left
  lines_append)

/-- A statement; `τ` are the goroutines, `β` the values on the channel, `ο` the lines printed. -/
inductive Op (τ β ο : Type*) where
  /-- `go f()` -/
  | go (t : τ)
  | say (o : ο)
  /-- `ch <- v` -/
  | send (v : β)
  | close
  /-- `for val := range ch` -/
  | range
  /-- `val := <-ch` -/
  | receive
  /-- `wg.Wait()` -/
  | wait (ts : List τ)

/-- What is printed for a value that is received, and the goroutines: what each does, and who starts
it. -/
structure Program (τ β ο : Type*) where
  body : β → List ο
  /-- the zero value, which a closed channel gives -/
  zero : β
  main : τ → List (Op τ β ο)
  starter : τ → Option τ
  sender : τ
  receiver : τ
  capacity : ℕ

variable {τ β ο : Type*} [DecidableEq τ]

namespace Program

/-- Lines to print before `l`. -/
def saying (os : List ο) (l : List (Op τ β ο)) : List (Op τ β ο) := os.map .say ++ l

/-- The code of the rest of a program. -/
def code (P : Program τ β ο) : List (Op τ β ο) → Instr τ Unit β ο (List (Op τ β ο))
  | [] => .finished
  | .go t :: l => .spawn t l
  | .say o :: l => .print o l
  | .send v :: l => .send () v l
  | .close :: l => .close () l
  | .range :: l =>
      .recv () fun
        | some v => saying (P.body v) (.range :: l)
        | none => l
  | .receive :: l => .recv () fun v => saying (P.body (v.getD P.zero)) l
  | .wait ts :: l => .join ts l

/-- The program as a network of one channel. -/
def net (P : Program τ β ο) : Network τ Unit β ο (List (Op τ β ο)) where
  code := P.code
  entry := P.main
  starter := P.starter
  sender _ := P.sender
  receiver _ := P.receiver
  capacity _ := P.capacity

end Program

/-- What a piece of code without loops and `receive` sends. -/
def sendsOf (l : List (Op τ β ο)) : List β :=
  l.filterMap fun
    | .send v => some v
    | _ => none

/-- What it prints. -/
def saysOf (l : List (Op τ β ο)) : List ο :=
  l.filterMap fun
    | .say o => some o
    | _ => none

omit [DecidableEq τ] in
/-- What is sent in two stretches. -/
theorem sendsOf_append (l l' : List (Op τ β ο)) : sendsOf (l ++ l') = sendsOf l ++ sendsOf l' :=
  List.filterMap_append

omit [DecidableEq τ] in
/-- What is printed in two stretches. -/
theorem saysOf_append (l l' : List (Op τ β ο)) : saysOf (l ++ l') = saysOf l ++ saysOf l' :=
  List.filterMap_append

/-- It only prints and sends. -/
def Straight (l : List (Op τ β ο)) : Prop := ∀ op ∈ l, (∃ o, op = .say o) ∨ ∃ v, op = .send v

/-- The processes of a program. -/
abbrev Proc (τ β ο : Type*) := Process τ Unit β (List (Op τ β ο))

/-- A goroutine before `l`. -/
def before (l : List (Op τ β ο)) (sent : List β) (taken : ℕ) (closed : Bool)
    (started : τ → Bool) : Proc τ β ο :=
  ⟨.running l, fun _ => sent, fun _ => taken, fun _ => closed, started⟩

/-- A goroutine in a send, before `l`. -/
def parked (l : List (Op τ β ο)) (sent : List β) (taken : ℕ) (closed : Bool)
    (started : τ → Bool) : Proc τ β ο :=
  ⟨.sending () l, fun _ => sent, fun _ => taken, fun _ => closed, started⟩

/-! ## The two loops -/

variable {P : Program τ β ο} {s : τ → Proc τ β ο} {p q : τ} {A B A' B' : Proc τ β ο}

/-- There is one channel. -/
theorem update_unit {α : Type*} (x y : α) : Function.update (fun _ : Unit => x) () y = fun _ => y :=
  funext fun _ => rfl

/-- Goroutine `p` sends, goroutine `q` receives, and both have been started. -/
structure Link (P : Program τ β ο) (s : τ → Proc τ β ο) (p q : τ) (up uq : τ → Bool) : Prop where
  ne : p ≠ q
  sender : P.sender = p
  receiver : P.receiver = q
  left : ∀ A B, A.started = up → B.started = uq → P.net.awake (both s p q A B) p = true
  right : ∀ A B, A.started = up → B.started = uq → P.net.awake (both s p q A B) q = true

namespace Link

variable {up uq : τ → Bool} {l m m' : List (Op τ β ο)} {vs : List β} {v : β}

/-- A step of the sender. -/
theorem step_left (hL : Link P s p q up uq) (A A' B : Proc τ β ο)
    (e : Network.Event τ Unit β ο) (hA : A.started = up) (hB : B.started = uq)
    {k : List (Op τ β ο)} (hphase : A.phase = .running k)
    (he : P.net.exec (both s p q A B) p (P.code k) = some (e, A')) :
    P.net.Reaches (both s p q A B) (both s p q A' B) (lines p q e.output.toList []) := by
  apply Reaches.left hL.ne
  rw [Network.processStep_running (hL.left A B hA hB) (by rw [both_left hL.ne]; exact hphase)]
  exact he

/-- A step of the receiver. -/
theorem step_right (hL : Link P s p q up uq) (A B B' : Proc τ β ο)
    (e : Network.Event τ Unit β ο) (hA : A.started = up) (hB : B.started = uq)
    {k : List (Op τ β ο)} (hphase : B.phase = .running k)
    (he : P.net.exec (both s p q A B) q (P.code k) = some (e, B')) :
    P.net.Reaches (both s p q A B) (both s p q A B') (lines p q [] e.output.toList) := by
  apply Reaches.right hL.ne
  rw [Network.processStep_running (hL.right A B hA hB) (by rw [both_right]; exact hphase)]
  exact he

/-- The sender prints some lines. -/
theorem say_left (hL : Link P s p q up uq) (hB : B.started = uq) (l : List (Op τ β ο))
    (vs : List β) (c : Bool) (os : List ο) :
    P.net.Reaches (both s p q (before (Program.saying os l) vs 0 c up) B)
      (both s p q (before l vs 0 c up) B) (lines p q os []) := by
  induction os with
  | nil => exact (Reaches.refl _).cast (funext fun t => by simp [lines])
  | cons o os ih =>
      have hfirst := hL.step_left (before (.say o :: Program.saying os l) vs 0 c up)
        (before (Program.saying os l) vs 0 c up) B (.prints o) rfl hB rfl
        (by simp [Network.exec, Program.code, both_left hL.ne, before])
      exact (hfirst.trans ih).cast (lines_append _ _ _ _)

/-- The receiver prints some lines. -/
theorem say_right (hL : Link P s p q up uq) (hA : A.started = up) (m : List (Op τ β ο)) (k : ℕ)
    (os : List ο) :
    P.net.Reaches (both s p q A (before (Program.saying os m) [] k false uq))
      (both s p q A (before m [] k false uq)) (lines p q [] os) := by
  induction os with
  | nil => exact (Reaches.refl _).cast (funext fun t => by simp [lines])
  | cons o os ih =>
      have hfirst := hL.step_right A (before (.say o :: Program.saying os m) [] k false uq)
        (before (Program.saying os m) [] k false uq) (.prints o) hA rfl rfl
        (by simp [Network.exec, Program.code, both_right, before])
      exact (hfirst.trans ih).cast (lines_append _ _ _ _)

end Link

/-- Code that receives a value, prints what is to be printed for it, and goes on. -/
def Accepts (P : Program τ β ο) (m m' : List (Op τ β ο)) : Prop :=
  ∃ next, P.code m = .recv () next ∧ ∀ v, next (some v) = Program.saying (P.body v) m'

omit [DecidableEq τ] in
/-- The head of the loop over the channel receives the next value. -/
theorem accepts_range (P : Program τ β ο) (m : List (Op τ β ο)) :
    Accepts P (.range :: m) (.range :: m) := ⟨_, rfl, fun _ => rfl⟩

omit [DecidableEq τ] in
/-- So does a single receive. -/
theorem accepts_receive (P : Program τ β ο) (m : List (Op τ β ο)) :
    Accepts P (.receive :: m) m := ⟨_, rfl, fun _ => rfl⟩

namespace Link

variable {up uq : τ → Bool} {m m' : List (Op τ β ο)}

/-- The sender puts a value in line. -/
theorem offer (hL : Link P s p q up uq) (hB : B.started = uq) (v : β) (l : List (Op τ β ο))
    (vs : List β) :
    P.net.Reaches (both s p q (before (.send v :: l) vs 0 false up) B)
      (both s p q (parked l (vs ++ [v]) 0 false up) B) fun _ => [] := by
  have hstep := hL.step_left (before (.send v :: l) vs 0 false up)
    (parked l (vs ++ [v]) 0 false up) B (.offers () v) rfl hB rfl
    (by simp [Network.exec, Program.code, both_left hL.ne, before, parked, Program.net, hL.sender,
      update_unit])
  exact hstep.cast (funext fun t => by simp [lines, Network.Event.output])

/-- A value is sent, received, and printed. -/
theorem pass (hL : Link P s p q up uq) (hm : Accepts P m m') (v : β) (l : List (Op τ β ο))
    (vs : List β) :
    P.net.Reaches
      (both s p q (before (.send v :: l) vs 0 false up) (before m [] vs.length false uq))
      (both s p q (before l (vs ++ [v]) 0 false up)
        (before m' [] (vs ++ [v]).length false uq)) (lines p q [] (P.body v)) := by
  obtain ⟨next, hcode, hnext⟩ := hm
  have hreceive := hL.step_right (parked l (vs ++ [v]) 0 false up) (before m [] vs.length false uq)
    (before (Program.saying (P.body v) m') [] (vs ++ [v]).length false uq)
    (.receives () v) rfl rfl rfl
    (by
      rw [hcode]
      simp [Network.exec, both_left hL.ne, both_right, before, parked, Program.net, hL.sender,
        hL.receiver, update_unit, hnext])
  have hsaid := hL.say_right (A := parked l (vs ++ [v]) 0 false up) rfl m' (vs ++ [v]).length
    (P.body v)
  -- the value has been received, so that the send returns
  have hreturn : P.net.processStep (both s p q (parked l (vs ++ [v]) 0 false up)
      (before m' [] (vs ++ [v]).length false uq)) p =
        some (.sends (), before l (vs ++ [v]) 0 false up) := by
    rw [Network.processStep_sending () l (hL.left _ _ rfl rfl) (by rw [both_left hL.ne]; rfl)]
    simp [both_left hL.ne, both_right, before, parked, Program.net, hL.receiver]
  have hreturned := Reaches.quiet hreturn rfl
  rw [update_both_left hL.ne] at hreturned
  refine (((hL.offer rfl v l vs).trans hreceive).trans (hsaid.trans hreturned)).cast ?_
  funext t
  simp [lines, Network.Event.output]

/-- **The two loops.**  Each value that is sent is received and printed before the next one. -/
theorem run (hL : Link P s p q up uq) {l : List (Op τ β ο)} (hl : Straight l) (vs : List β)
    (rest : List (Op τ β ο)) (code : ℕ → List (Op τ β ο))
    (hcode : ∀ j < (sendsOf l).length, Accepts P (code j) (code (j + 1))) :
    P.net.Reaches
      (both s p q (before (l ++ rest) vs 0 false up) (before (code 0) [] vs.length false uq))
      (both s p q (before rest (vs ++ sendsOf l) 0 false up)
        (before (code (sendsOf l).length) [] (vs ++ sendsOf l).length false uq))
      (lines p q (saysOf l) ((sendsOf l).flatMap P.body)) := by
  induction l generalizing vs code with
  | nil =>
      rw [show sendsOf ([] : List (Op τ β ο)) = [] from rfl, List.append_nil]
      refine (Reaches.refl _).cast (funext fun t => ?_)
      simp [lines, saysOf]
  | cons op l ih =>
      have hl' : Straight l := fun op' hop => hl op' (List.mem_cons_of_mem op hop)
      rcases hl op List.mem_cons_self with ⟨o, rfl⟩ | ⟨v, rfl⟩
      · have hsaid := hL.say_left (B := before (code 0) [] vs.length false uq) rfl (l ++ rest) vs
          false [o]
        exact (hsaid.trans (ih hl' vs code hcode)).cast (lines_append _ _ _ _)
      · have hpass := hL.pass (hcode 0 (Nat.succ_pos _)) v (l ++ rest) vs
        have hrest := ih hl' (vs ++ [v]) (fun j => code (j + 1))
          fun j hj => hcode (j + 1) (Nat.succ_lt_succ hj)
        have hsends : vs ++ sendsOf (.send v :: l) = vs ++ [v] ++ sendsOf l := by
          rw [List.append_assoc]
          rfl
        rw [hsends]
        exact (hpass.trans hrest).cast (lines_append _ _ _ _)

/-- The channel is closed and empty, and the receiver leaves its loop. -/
theorem close (hL : Link P s p q up uq) (l m : List (Op τ β ο)) (vs : List β) :
    P.net.Reaches
      (both s p q (before (.close :: l) vs 0 false up)
        (before (.range :: m) [] vs.length false uq))
      (both s p q (before l vs 0 true up) (before m [] vs.length false uq)) fun _ => [] := by
  have hclose := hL.step_left (before (.close :: l) vs 0 false up) (before l vs 0 true up)
    (before (.range :: m) [] vs.length false uq) (.closes ()) rfl rfl rfl
    (by simp [Network.exec, Program.code, both_left hL.ne, before, Program.net, hL.sender,
      update_unit])
  have hend := hL.step_right (before l vs 0 true up) (before (.range :: m) [] vs.length false uq)
    (before m [] vs.length false uq) (.ends ()) rfl rfl rfl
    (by simp [Network.exec, Program.code, both_left hL.ne, both_right, before, Program.net,
      hL.sender, hL.receiver])
  refine (hclose.trans hend).cast ?_
  funext t
  simp [lines, Network.Event.output]

end Link

/-! ## Programs in which the receiver starts the sender -/

omit [DecidableEq τ] in
/-- A process that has returned. -/
theorem isFinished_before (P : Program τ β ο) (sent : List β) (taken : ℕ) (closed : Bool)
    (started : τ → Bool) : P.net.isFinished (before [] sent taken closed started) = true := rfl

/-- Two goroutines: `q` starts `p` and goes on with `m`. -/
structure Started (P : Program τ β ο) (p q : τ) (m : List (Op τ β ο)) : Prop where
  ne : p ≠ q
  all : ∀ t, t = p ∨ t = q
  sender : P.sender = p
  receiver : P.receiver = q
  starter : P.starter p = some q
  first : P.starter q = none
  main : P.main q = .go p :: m

/-- What `q` has started. -/
def only (p : τ) : τ → Bool := Function.update (fun _ => false) p true

namespace Started

variable {l m m' rest : List (Op τ β ο)} {k : ℕ}

/-- One goroutine that is started by the other, which then receives. -/
theorem link (h : Started P p q m) : Link P P.net.start p q (fun _ => false) (only p) where
  ne := h.ne
  sender := h.sender
  receiver := h.receiver
  left A B _ hB := by
    rw [Network.awake, show P.net.starter p = some q from h.starter]
    dsimp only
    rw [both_right, hB, only, Function.update_self]
  right A B _ _ := by rw [Network.awake, show P.net.starter q = none from h.first]

/-- The first step. -/
theorem go (h : Started P p q m) :
    P.net.Reaches P.net.start
      (both P.net.start p q (before (P.main p) [] 0 false fun _ => false)
        (before m [] 0 false (only p))) fun _ => [] := by
  have hstep : P.net.processStep P.net.start q =
      some (.spawns p, before m [] 0 false (only p)) := by
    rw [Network.processStep_running (k := P.main q)
      (by rw [Network.awake, show P.net.starter q = none from h.first]) rfl, h.main]
    rfl
  have hreaches := Reaches.quiet hstep rfl
  rwa [show Function.update P.net.start q (before m [] 0 false (only p)) =
    both P.net.start p q (before (P.main p) [] 0 false fun _ => false)
      (before m [] 0 false (only p)) from ?_] at hreaches
  rw [both, show before (P.main p) [] 0 false (fun _ => false) = P.net.start p from rfl,
    Function.update_eq_self]

/-- The receiver takes all that is sent, and leaves its loop. -/
theorem ranges (h : Started P p q [.range]) (hl : Straight l)
    (hmain : P.main p = l ++ [.close]) :
    ∃ final, P.net.Determined final
        (lines p q (saysOf l) ((sendsOf l).flatMap P.body)) ∧
      ∀ t, P.net.isFinished (final t) = true := by
  have hrun := h.link.run hl [] [.close] (fun _ => [.range])
    fun j _ => accepts_range P []
  have hclose := h.link.close [] [] ([] ++ sendsOf l)
  have hgo := h.go
  rw [hmain] at hgo
  have hall := (hgo.trans hrun).trans hclose
  have hfinished : ∀ t, P.net.isFinished (both P.net.start p q
      (before [] ([] ++ sendsOf l) 0 true fun _ => false)
      (before [] [] ([] ++ sendsOf l).length false (only p)) t) = true := by
    intro t
    rcases h.all t with rfl | rfl
    · rw [both_left h.ne]
      exact isFinished_before _ _ _ _ _
    · rw [both_right]
      exact isFinished_before _ _ _ _ _
  exact ⟨_, Reaches.determined_of_finished (hall.cast (funext fun t => by simp)) hfinished,
    hfinished⟩

omit [DecidableEq τ] in
/-- The part of a piece of code that sends the first `k` values. -/
theorem exists_split {k : ℕ} (hk : k < (sendsOf l).length) :
    ∃ l₁ v l₂, l = l₁ ++ .send v :: l₂ ∧ (sendsOf l₁).length = k := by
  induction l generalizing k with
  | nil => exact absurd hk (Nat.not_lt_zero k)
  | cons op l ih =>
      have hskip : (∀ v, op ≠ .send v) → k < (sendsOf l).length →
          ∃ l₁ v l₂, op :: l = l₁ ++ .send v :: l₂ ∧ (sendsOf l₁).length = k := by
        intro hop hk'
        obtain ⟨l₁, v, l₂, rfl, hlen⟩ := ih hk'
        refine ⟨op :: l₁, v, l₂, rfl, ?_⟩
        cases op with
        | send v => exact absurd rfl (hop v)
        | _ => exact hlen
      cases op with
      | send v =>
          cases k with
          | zero => exact ⟨[], v, l, rfl, rfl⟩
          | succ k =>
              obtain ⟨l₁, v', l₂, rfl, hlen⟩ := ih (Nat.lt_of_succ_lt_succ hk)
              exact ⟨.send v :: l₁, v', l₂, rfl, congrArg Nat.succ hlen⟩
      | _ => exact hskip (fun _ hop => by cases hop) hk

omit [DecidableEq τ] in
/-- So many receives, one after the other. -/
theorem accepts_receives (P : Program τ β ο) (k j : ℕ) (hj : j < k) :
    Accepts P (List.replicate (k - j) .receive) (List.replicate (k - (j + 1)) .receive) := by
  have hsucc : k - j = k - (j + 1) + 1 := by omega
  rw [hsucc, List.replicate_succ]
  exact accepts_receive P _

/-- The receiver takes fewer values than are sent: the sender waits for ever. -/
theorem receives_few (h : Started P p q (List.replicate k .receive)) (hl : Straight l)
    (hquiet : saysOf l = []) (hmain : P.main p = l ++ [.close]) (hcapacity : P.capacity = 0)
    (hk : k < (sendsOf l).length) :
    ∃ final, P.net.Determined final (lines p q [] (((sendsOf l).take k).flatMap P.body)) ∧
      P.net.isFinished (final q) = true ∧ P.net.isFinished (final p) = false := by
  obtain ⟨l₁, v, l₂, rfl, rfl⟩ := exists_split hk
  have hl₁ : Straight l₁ := fun op hop => hl op (List.mem_append_left _ hop)
  have hquiet₁ : saysOf l₁ = [] := by
    rw [saysOf_append] at hquiet
    exact (List.append_eq_nil_iff.mp hquiet).1
  have htake : (sendsOf (l₁ ++ .send v :: l₂)).take (sendsOf l₁).length = sendsOf l₁ := by
    rw [sendsOf_append]
    exact List.take_left
  have hrun := h.link.run hl₁ [] (.send v :: l₂ ++ [.close])
    (fun j => List.replicate ((sendsOf l₁).length - j) .receive)
    fun j hj => accepts_receives P _ j hj
  have hoffer := h.link.offer (B := before [] [] ([] ++ sendsOf l₁).length false (only p)) rfl v
    (l₂ ++ [.close]) ([] ++ sendsOf l₁)
  have hgo := h.go
  rw [hmain, List.append_assoc] at hgo
  rw [Nat.sub_self] at hrun
  have hall := (hgo.trans hrun).trans hoffer
  rw [hquiet₁] at hall
  refine ⟨_, Reaches.determined (hall.cast (funext fun t => ?_)) (fun t => ?_) fun t => ?_, ?_, ?_⟩
  · rw [htake]
    simp
  · apply Network.step_eq_none
    rcases h.all t with rfl | rfl
    · -- nobody receives what it has offered
      rw [Network.processStep_sending () (l₂ ++ [.close]) (h.link.left _ _ rfl rfl)
        (by rw [both_left h.ne]; rfl), if_neg]
      simp [both_left h.ne, both_right, parked, before, Program.net, h.receiver, hcapacity]
    · apply Network.processStep_of_finished
      rw [both_right]
      exact isFinished_before _ _ _ _ _
  · rcases h.all t with rfl | rfl
    · simp [both_left h.ne, parked]
    · simp [both_right, before]
  · rw [both_right]
    exact isFinished_before _ _ _ _ _
  · rw [both_left h.ne]
    rfl

/-- From a closed channel the receiver takes zero values. -/
theorem takes_zeros (h : Started P p q m) (vs : List β) (n : ℕ) :
    P.net.Reaches
      (both P.net.start p q (before [] vs 0 true fun _ => false)
        (before (List.replicate n .receive) [] vs.length false (only p)))
      (both P.net.start p q (before [] vs 0 true fun _ => false)
        (before [] [] vs.length false (only p)))
      (lines p q [] ((List.replicate n P.zero).flatMap P.body)) := by
  induction n with
  | zero => exact (Reaches.refl _).cast (funext fun t => by simp [lines])
  | succ n ih =>
      have hend := h.link.step_right (before [] vs 0 true fun _ => false)
        (before (.receive :: List.replicate n .receive) [] vs.length false (only p))
        (before (Program.saying (P.body P.zero) (List.replicate n .receive)) [] vs.length false
          (only p)) (.ends ()) rfl rfl rfl
        (by simp [Network.exec, Program.code, both_left h.ne, both_right, before, Program.net,
          h.sender, h.receiver])
      have hsaid := h.link.say_right (A := before [] vs 0 true fun _ => false) rfl
        (List.replicate n .receive) vs.length (P.body P.zero)
      have hfirst := (hend.trans hsaid).cast (lines_append _ _ _ _)
      exact (hfirst.trans ih).cast (lines_append _ _ _ _)

/-- The receiver takes at least as many values as are sent. -/
theorem receives_all (h : Started P p q (List.replicate k .receive)) (hl : Straight l)
    (hquiet : saysOf l = []) (hmain : P.main p = l ++ [.close]) (hk : (sendsOf l).length ≤ k) :
    ∃ final, P.net.Determined final (lines p q []
        ((sendsOf l ++ List.replicate (k - (sendsOf l).length) P.zero).flatMap P.body)) ∧
      ∀ t, P.net.isFinished (final t) = true := by
  have hrun := h.link.run hl [] [.close] (fun j => List.replicate (k - j) .receive)
    fun j hj => accepts_receives P k j (Nat.lt_of_lt_of_le hj hk)
  have hgo := h.go
  rw [hmain] at hgo
  have hclose := h.link.step_left (before [.close] (sendsOf l) 0 false fun _ => false)
    (before [] (sendsOf l) 0 true fun _ => false)
    (before (List.replicate (k - (sendsOf l).length) .receive) [] (sendsOf l).length false (only p))
    (.closes ()) rfl rfl rfl
    (by simp [Network.exec, Program.code, both_left h.ne, before, Program.net, h.sender,
      update_unit])
  have hzeros := h.takes_zeros (sendsOf l) (k - (sendsOf l).length)
  have hall := ((hgo.trans hrun).trans hclose).trans hzeros
  have hfinished : ∀ t, P.net.isFinished (both P.net.start p q
      (before [] (sendsOf l) 0 true fun _ => false)
      (before [] [] (sendsOf l).length false (only p)) t) = true := by
    intro t
    rcases h.all t with rfl | rfl
    · rw [both_left h.ne]
      exact isFinished_before _ _ _ _ _
    · rw [both_right]
      exact isFinished_before _ _ _ _ _
  refine ⟨_, Reaches.determined_of_finished (hall.cast (funext fun t => ?_)) hfinished, hfinished⟩
  rw [hquiet, List.flatMap_append]
  unfold lines
  split
  · rfl
  · split
    · simp
    · rfl

end Started

/-! ## Programs that start both and wait -/

/-- Three goroutines: `r` starts `p` and `q`, and waits for both. -/
structure Spawned (P : Program τ β ο) (r p q : τ) : Prop where
  ne : p ≠ q
  left : r ≠ p
  right : r ≠ q
  all : ∀ t, t = r ∨ t = p ∨ t = q
  sender : P.sender = p
  receiver : P.receiver = q
  startP : P.starter p = some r
  startQ : P.starter q = some r
  first : P.starter r = none
  main : P.main r = [.go p, .go q, .wait [p, q]]
  range : P.main q = [.range]

namespace Spawned

variable {r : τ} {l : List (Op τ β ο)}

/-- What `r` has started. -/
def twoOf (p q : τ) : τ → Bool := Function.update (only p) q true

/-- `r` waits. -/
def waiting (P : Program τ β ο) (r p q : τ) : τ → Proc τ β ο :=
  Function.update P.net.start r (before [.wait [p, q]] [] 0 false (twoOf p q))

/-- Two goroutines, both started by `main`. -/
theorem link (h : Spawned P r p q) :
    Link P (waiting P r p q) p q (fun _ => false) fun _ => false where
  ne := h.ne
  sender := h.sender
  receiver := h.receiver
  left A B _ _ := by
    rw [Network.awake, show P.net.starter p = some r from h.startP]
    dsimp only
    rw [both_other h.left h.right, waiting, Function.update_self]
    show Function.update (only p) q true p = true
    rw [Function.update_of_ne h.ne, only, Function.update_self]
  right A B _ _ := by
    rw [Network.awake, show P.net.starter q = some r from h.startQ]
    dsimp only
    rw [both_other h.left h.right, waiting, Function.update_self]
    show twoOf p q q = true
    rw [twoOf, Function.update_self]

/-- `main` starts both, and waits. -/
theorem go (h : Spawned P r p q) :
    P.net.Reaches P.net.start (waiting P r p q) fun _ => [] := by
  have hawake : P.net.awake P.net.start r = true := by
    rw [Network.awake, show P.net.starter r = none from h.first]
  have hfirst : P.net.processStep P.net.start r =
      some (.spawns p, before [.go q, .wait [p, q]] [] 0 false (only p)) := by
    rw [Network.processStep_running (k := P.main r) hawake rfl, h.main]
    rfl
  have hsecond : P.net.processStep
      (Function.update P.net.start r (before [.go q, .wait [p, q]] [] 0 false (only p))) r =
        some (.spawns q, before [.wait [p, q]] [] 0 false (twoOf p q)) := by
    rw [Network.processStep_running (k := [.go q, .wait [p, q]])
      (by rw [Network.awake, show P.net.starter r = none from h.first])
      (by rw [Function.update_self]; rfl)]
    simp [Network.exec, Program.net, Program.code, before, twoOf]
  have hreaches := (Reaches.quiet hfirst rfl).trans (Reaches.quiet hsecond rfl)
  rw [Function.update_idem] at hreaches
  exact hreaches

/-- The receiver takes all that is sent; then all return. -/
theorem joined (h : Spawned P r p q) (hl : Straight l) (os : List ο)
    (hmain : P.main p = l ++ .close :: Program.saying os []) :
    ∃ final, P.net.Determined final
        (lines p q (saysOf l ++ os) ((sendsOf l).flatMap P.body)) ∧
      ∀ t, P.net.isFinished (final t) = true := by
  have hstart : waiting P r p q = both (waiting P r p q) p q
      (before (P.main p) [] 0 false fun _ => false)
      (before [.range] [] ([] : List β).length false fun _ => false) := by
    funext t
    rcases h.all t with rfl | rfl | rfl
    · rw [both_other h.left h.right]
    · rw [both_left h.ne, waiting, Function.update_of_ne h.left.symm]
      rfl
    · rw [both_right, waiting, Function.update_of_ne h.right.symm, ← h.range]
      rfl
  have hrun := h.link.run hl [] (.close :: Program.saying os []) (fun _ => [.range])
    fun j _ => accepts_range P []
  have hclose := h.link.close (Program.saying os []) [] ([] ++ sendsOf l)
  have hsaid := h.link.say_left (B := before [] [] ([] ++ sendsOf l).length false fun _ => false)
    rfl [] ([] ++ sendsOf l) true os
  have hgo := h.go
  rw [hstart, hmain] at hgo
  have hloops := ((hgo.trans hrun).trans hclose).trans hsaid
  -- both have returned
  have hjoin : P.net.processStep (both (waiting P r p q) p q
      (before [] ([] ++ sendsOf l) 0 true fun _ => false)
      (before [] [] ([] ++ sendsOf l).length false fun _ => false)) r =
        some (.joins, before [] [] 0 false (twoOf p q)) := by
    rw [Network.processStep_running (k := [.wait [p, q]])
      (by rw [Network.awake, show P.net.starter r = none from h.first])
      (by rw [both_other h.left h.right, waiting, Function.update_self]; rfl)]
    simp [Network.exec, Program.net, Program.code, both_other h.left h.right, both_left h.ne,
      both_right, waiting, before, Network.isFinished]
  have hall := hloops.trans (Reaches.quiet hjoin rfl)
  have hfinished : ∀ t, P.net.isFinished (Function.update (both (waiting P r p q) p q
      (before [] ([] ++ sendsOf l) 0 true fun _ => false)
      (before [] [] ([] ++ sendsOf l).length false fun _ => false)) r
        (before [] [] 0 false (twoOf p q)) t) = true := by
    intro t
    rcases h.all t with rfl | rfl | rfl
    · rw [Function.update_self]
      exact isFinished_before _ _ _ _ _
    · rw [Function.update_of_ne h.left.symm, both_left h.ne]
      exact isFinished_before _ _ _ _ _
    · rw [Function.update_of_ne h.right.symm, both_right]
      exact isFinished_before _ _ _ _ _
  refine ⟨_, Reaches.determined_of_finished (hall.cast (funext fun t => ?_)) hfinished, hfinished⟩
  unfold lines
  split
  · simp
  · split
    · simp
    · rfl

end Spawned

end Streams

open Streams
open Network (lines)

/-! ## The programs -/

/-- The goroutines of a program; the main one may be the consumer. -/
inductive Goroutine where
  | main
  | producer
  | consumer
  deriving DecidableEq

/-- `main` and a goroutine that it starts. -/
inductive Pair where
  | main
  | goroutine
  deriving DecidableEq

/-- What the loops print for a value. -/
inductive StreamLine (β : Type*) where
  | sending (v : β)
  | sent (v : β)
  | received (v : β)
  | closed
  deriving DecidableEq

/-- The turns of `for i := 0; i < n; i++`. -/
def turns {τ β ο : Type*} (n : ℕ) (turn : ℕ → List (Op τ β ο)) : List (Op τ β ο) :=
  (List.range n).flatMap turn

/-- `demo1`, with `n` for 5. -/
def demo1 (n : ℕ) : Program Pair Int64 (StreamLine Int64) where
  body val := [.received val]
  zero := 0
  main
    | .main => [.go .goroutine, .range]
    | .goroutine =>
        turns n (fun i =>
          let msg := Int64.ofNat i * 10
          [.say (.sending msg), .send msg]) ++ [.close]
  starter
    | .main => none
    | .goroutine => some .main
  sender := .goroutine
  receiver := .main
  capacity := 0

/-- What `demo2` prints. -/
inductive BufferLine where
  /-- The value, `len(ch)` and `cap(ch)`. -/
  | produced (i : Int64) (len cap : ℕ)
  | consumed (val : Int64)
  deriving DecidableEq

/-- `demo2`, with `n` for 6; the channel has capacity 3, and a line is a function of `len(ch)`. -/
def demo2 (n : ℕ) : Program Goroutine Int64 (ℕ → BufferLine) where
  body val := [fun _ => .consumed val]
  zero := 0
  main
    | .main => [.go .producer, .go .consumer, .wait [.producer, .consumer]]
    | .producer =>
        turns n (fun i =>
          [.send (Int64.ofNat i), .say fun len : ℕ => BufferLine.produced (Int64.ofNat i) len 3]) ++
            [.close]
    | .consumer => [.range]
  starter
    | .main => none
    | .producer | .consumer => some .main
  sender := .producer
  receiver := .consumer
  capacity := 3

/-- One half of the Kotlin `main`, with `n` for 5: `Channel<Int>()` has capacity 0, and
`Channel<Int>(3)` has 3.  These channels are those of the `kotlinx.coroutines` library, taken as it
documents them: `send` suspends until its value is received or in the buffer, and iteration ends
when the channel is closed and empty. -/
def channelDemo (n capacity : ℕ) : Program Goroutine Int32 (StreamLine Int32) where
  body value := [.received value]
  zero := 0
  main
    | .main => [.go .producer, .go .consumer, .wait [.producer, .consumer]]
    | .producer =>
        turns n (fun i =>
          let x := Int32.ofNat (i + 1)
          [.say (.sending x), .send x, .say (.sent x)]) ++ .close :: [.say .closed]
    | .consumer => [.range]
  starter
    | .main => none
    | .producer | .consumer => some .main
  sender := .producer
  receiver := .consumer
  capacity := capacity

/-- The loop of `fibonacciGenerator`. -/
def fibonacciLoop : ℕ → Int64 → Int64 → List (Op Pair Int64 Int64)
  | 0, _, _ => []
  | limit + 1, a, b => .send a :: fibonacciLoop limit b (a + b)

/-- `fibonacciGenerator(limit)`, with what `main` does with the channel. -/
def fibonacciGenerator (limit : ℕ) (use : List (Op Pair Int64 Int64)) :
    Program Pair Int64 Int64 where
  body val := [val]
  zero := 0
  main
    | .main => .go .goroutine :: use
    | .goroutine => fibonacciLoop limit 0 1 ++ [.close]
  starter
    | .main => none
    | .goroutine => some .main
  sender := .goroutine
  receiver := .main
  capacity := 0

/-- Turns without receives. -/
theorem straight_turns {τ β ο : Type*} {n : ℕ} {turn : ℕ → List (Op τ β ο)}
    (h : ∀ i, Straight (turn i)) : Straight (turns n turn) := by
  intro op hop
  obtain ⟨i, -, hi⟩ := List.mem_flatMap.mp hop
  exact h i op hi

/-- Each turn sends one value. -/
theorem sendsOf_turns {τ β ο : Type*} (n : ℕ) {turn : ℕ → List (Op τ β ο)} (value : ℕ → β)
    (h : ∀ i, sendsOf (turn i) = [value i]) :
    sendsOf (turns n turn) = (List.range n).map value := by
  have hflat : sendsOf (turns n turn) = (List.range n).flatMap fun i => sendsOf (turn i) := by
    rw [turns, sendsOf, List.filterMap_flatMap]
    rfl
  rw [hflat, List.map_eq_flatMap]
  simp only [h]

/-- What is printed turn by turn. -/
theorem saysOf_turns {τ β ο : Type*} (n : ℕ) (turn : ℕ → List (Op τ β ο)) :
    saysOf (turns n turn) = (List.range n).flatMap fun i => saysOf (turn i) := by
  rw [turns, saysOf, List.filterMap_flatMap]
  rfl

theorem straight_nil {τ β ο : Type*} : Straight ([] : List (Op τ β ο)) := fun _ h => by cases h

theorem straight_say {τ β ο : Type*} {o : ο} {l : List (Op τ β ο)} (h : Straight l) :
    Straight (.say o :: l) := by
  intro op hop
  rcases List.mem_cons.mp hop with rfl | hop
  · exact Or.inl ⟨o, rfl⟩
  · exact h op hop

theorem straight_send {τ β ο : Type*} {v : β} {l : List (Op τ β ο)} (h : Straight l) :
    Straight (.send v :: l) := by
  intro op hop
  rcases List.mem_cons.mp hop with rfl | hop
  · exact Or.inr ⟨v, rfl⟩
  · exact h op hop

/-- `demo1` starts one goroutine and receives from it. -/
theorem demo1_started (n : ℕ) : Started (demo1 n) .goroutine .main [.range] where
  ne := by decide
  all t := by cases t <;> simp
  sender := rfl
  receiver := rfl
  starter := rfl
  first := rfl
  main := rfl

/-- `demo2` starts a producer and a consumer. -/
theorem demo2_spawned (n : ℕ) : Spawned (demo2 n) .main .producer .consumer where
  ne := by decide
  left := by decide
  right := by decide
  all t := by cases t <;> simp
  sender := rfl
  receiver := rfl
  startP := rfl
  startQ := rfl
  first := rfl
  main := rfl
  range := rfl

/-- `channelDemo` launches a producer and a consumer. -/
theorem channelDemo_spawned (n capacity : ℕ) :
    Spawned (channelDemo n capacity) .main .producer .consumer where
  ne := by decide
  left := by decide
  right := by decide
  all t := by cases t <;> simp
  sender := rfl
  receiver := rfl
  startP := rfl
  startQ := rfl
  first := rfl
  main := rfl
  range := rfl

/-- The generator is started by who uses it. -/
theorem fibonacciGenerator_started (limit : ℕ) (use : List (Op Pair Int64 Int64)) :
    Started (fibonacciGenerator limit use) .goroutine .main use where
  ne := by decide
  all t := by cases t <;> simp
  sender := rfl
  receiver := rfl
  starter := rfl
  first := rfl
  main := rfl

/-- `len(ch)` in `demo2`. -/
def lenOf (n : ℕ) (s : Goroutine → Proc Goroutine Int64 (ℕ → BufferLine)) : ℕ :=
  (demo2 n).net.buffered () s

/-- **`demo1` and `demo2`.**  Under every schedule all goroutines return, and the consumer prints
what the producer has sent, in order.  Of what the producer of `demo2` prints only the length of the
buffer depends on the schedule, which is at most 3. -/
theorem demos_determined (n : ℕ) :
    (∃ final, (demo1 n).net.Determined final
      (lines .goroutine .main ((List.range n).map fun i => .sending (Int64.ofNat i * 10))
        ((List.range n).map fun i => .received (Int64.ofNat i * 10))) ∧
      ∀ t, (demo1 n).net.isFinished (final t) = true) ∧
    ∃ final, (demo2 n).net.DeterminedForms (lenOf n) (· ≤ 3) final
      (lines .producer .consumer
        ((List.range n).map fun i len => .produced (Int64.ofNat i) len 3)
        ((List.range n).map fun i _ => .consumed (Int64.ofNat i))) ∧
      ∀ t, (demo2 n).net.isFinished (final t) = true := by
  constructor
  · obtain ⟨final, hdet, hfinished⟩ := (demo1_started n).ranges
      (straight_turns (n := n) fun i => straight_say (o := .sending (Int64.ofNat i * 10))
        (straight_send (v := Int64.ofNat i * 10) straight_nil)) rfl
    rw [saysOf_turns, sendsOf_turns n (fun i => Int64.ofNat i * 10) fun _ => rfl,
      List.flatMap_map] at hdet
    refine ⟨final, ?_, hfinished⟩
    convert hdet using 2
    all_goals exact List.map_eq_flatMap
  · obtain ⟨final, hdet, hfinished⟩ := (demo2_spawned n).joined
      (straight_turns (n := n) fun i => straight_send (v := Int64.ofNat i)
        (straight_say (o := fun len : ℕ => BufferLine.produced (Int64.ofNat i) len 3)
          straight_nil)) [] rfl
    rw [saysOf_turns, sendsOf_turns n Int64.ofNat fun _ => rfl, List.flatMap_map,
      List.append_nil] at hdet
    have hlen : ∀ s, lenOf n s ≤ 3 := fun s => Nat.min_le_right _ _
    refine ⟨final, Network.Determined.forms ?_ hlen, hfinished⟩
    convert hdet using 2
    all_goals exact List.map_eq_flatMap

/-- The consumer may take the value before the line is printed, or not. -/
example :
    (replay ((demo2 1).net.viewStep (lenOf 1)) (demo2 1).net.start
      [.main, .producer, .producer, .producer]).map (fun r => Network.shown .producer r.1) =
        some [.produced 0 1 3] ∧
    (replay ((demo2 1).net.viewStep (lenOf 1)) (demo2 1).net.start
      [.main, .main, .producer, .consumer, .producer, .producer]).map
        (fun r => Network.shown .producer r.1) = some [.produced 0 0 3] := by
  decide

/-- **The Kotlin channels.**  Whatever the capacity, under every schedule the consumer prints what
the producer has sent, in order, and the producer comes to its end. -/
theorem kotlin_determined (n capacity : ℕ) :
    ∃ final, (channelDemo n capacity).net.Determined final
      (lines .producer .consumer
        (((List.range n).flatMap fun i =>
          [.sending (Int32.ofNat (i + 1)), .sent (Int32.ofNat (i + 1))]) ++ [.closed])
        ((List.range n).map fun i => .received (Int32.ofNat (i + 1)))) ∧
      ∀ t, (channelDemo n capacity).net.isFinished (final t) = true := by
  obtain ⟨final, hdet, hfinished⟩ := (channelDemo_spawned n capacity).joined
    (straight_turns (n := n) fun i => straight_say (o := .sending (Int32.ofNat (i + 1)))
      (straight_send (v := Int32.ofNat (i + 1))
        (straight_say (o := .sent (Int32.ofNat (i + 1))) straight_nil))) [.closed] rfl
  rw [saysOf_turns, sendsOf_turns n (fun i => Int32.ofNat (i + 1)) fun _ => rfl,
    List.flatMap_map] at hdet
  refine ⟨final, ?_, hfinished⟩
  convert hdet using 2
  · rfl
  · exact List.map_eq_flatMap

/-! ### The generator -/

/-- The loop of the generator only sends. -/
theorem straight_fibonacciLoop (limit : ℕ) (a b : Int64) : Straight (fibonacciLoop limit a b) := by
  induction limit generalizing a b with
  | zero => exact straight_nil
  | succ limit ih => exact straight_send (ih b (a + b))

/-- And prints nothing. -/
theorem saysOf_fibonacciLoop (limit : ℕ) (a b : Int64) :
    saysOf (fibonacciLoop limit a b) = [] := by
  induction limit generalizing a b with
  | zero => rfl
  | succ limit ih => exact ih b (a + b)

/-- The numbers that `fibonacciGenerator` sends. -/
def fibonacciNumbers (limit : ℕ) : List Int64 :=
  (List.range limit).map fun i => Int64.ofNat (Nat.fib i)

/-- What the loop sends from its `i`-th turn on. -/
theorem sendsOf_fibonacciLoop (limit i : ℕ) :
    sendsOf (fibonacciLoop limit (.ofNat (Nat.fib i)) (.ofNat (Nat.fib (i + 1)))) =
      (List.range limit).map fun j => Int64.ofNat (Nat.fib (i + j)) := by
  induction limit generalizing i with
  | zero => rfl
  | succ limit ih =>
      rw [fibonacciLoop, Coroutine.int64_fib_add, List.range_succ_eq_map, List.map_cons,
        List.map_map]
      refine congrArg _ ((ih (i + 1)).trans (List.map_congr_left fun j _ => ?_))
      rw [Function.comp_apply, Nat.succ_eq_add_one, Nat.add_assoc, Nat.add_comm 1 j]

/-- What the generator sends. -/
theorem sendsOf_fibonacciGenerator (limit : ℕ) :
    sendsOf (fibonacciLoop limit 0 1) = fibonacciNumbers limit := by
  refine (sendsOf_fibonacciLoop limit 0).trans (List.map_congr_left fun j _ => ?_)
  rw [Nat.zero_add]

/-- As many as the limit. -/
theorem length_fibonacciNumbers (limit : ℕ) : (fibonacciNumbers limit).length = limit := by
  rw [fibonacciNumbers, List.length_map, List.length_range]

/-- **`fibonacciGenerator`.**  Under every schedule the caller that ranges over the channel prints
the numbers, reduced to 64 bits, and they are exact just if there are at most 93; the goroutine
returns.  One that takes `k` of them prints the first `k`, or all and then zeros; the goroutine
returns just if it takes all, and otherwise waits in its send for ever. -/
theorem fibonacciGenerator_determined (limit : ℕ) :
    (∃ final, (fibonacciGenerator limit [.range]).net.Determined final
        (lines .goroutine .main [] (fibonacciNumbers limit)) ∧
      ∀ t, (fibonacciGenerator limit [.range]).net.isFinished (final t) = true) ∧
    ((fibonacciNumbers limit).map Int64.toInt = (List.range limit).map (fun i => (Nat.fib i : ℤ)) ↔
      limit ≤ 93) ∧
    ∀ k, ∃ final,
      (fibonacciGenerator limit (List.replicate k .receive)).net.Determined final
        (lines .goroutine .main []
          ((fibonacciNumbers limit).take k ++ List.replicate (k - limit) 0)) ∧
      (fibonacciGenerator limit (List.replicate k .receive)).net.isFinished (final .main) = true ∧
      ((fibonacciGenerator limit (List.replicate k .receive)).net.isFinished
        (final .goroutine) = true ↔ limit ≤ k) := by
  refine ⟨?_, ?_, fun k => ?_⟩
  · obtain ⟨final, hdet, hfinished⟩ := (fibonacciGenerator_started limit [.range]).ranges
      (straight_fibonacciLoop limit 0 1) rfl
    rw [saysOf_fibonacciLoop, sendsOf_fibonacciGenerator] at hdet
    refine ⟨final, ?_, hfinished⟩
    convert hdet using 2
    exact (List.flatMap_singleton' _).symm
  · rw [fibonacciNumbers, List.map_map]
    exact FixedWidth.int64.map_exact_iff Nat.fib_mono Coroutine.fib_int64.1 Coroutine.fib_int64.2
      limit
  · rcases Nat.lt_or_ge k limit with hk | hk
    · obtain ⟨final, hdet, hmain, hgoroutine⟩ :=
        (fibonacciGenerator_started limit (List.replicate k .receive)).receives_few
          (straight_fibonacciLoop limit 0 1) (saysOf_fibonacciLoop limit 0 1) rfl rfl
          (by rw [sendsOf_fibonacciGenerator, length_fibonacciNumbers]; exact hk)
      rw [sendsOf_fibonacciGenerator] at hdet
      refine ⟨final, ?_, hmain, ?_⟩
      · rw [Nat.sub_eq_zero_of_le (Nat.le_of_lt hk), List.replicate_zero, List.append_nil]
        convert hdet using 2
        exact (List.flatMap_singleton' _).symm
      · rw [hgoroutine]
        exact iff_of_false Bool.false_ne_true (Nat.not_le_of_lt hk)
    · obtain ⟨final, hdet, hfinished⟩ :=
        (fibonacciGenerator_started limit (List.replicate k .receive)).receives_all
          (straight_fibonacciLoop limit 0 1) (saysOf_fibonacciLoop limit 0 1) rfl
          (by rw [sendsOf_fibonacciGenerator, length_fibonacciNumbers]; exact hk)
      rw [sendsOf_fibonacciGenerator, length_fibonacciNumbers] at hdet
      refine ⟨final, ?_, hfinished _, iff_of_true (hfinished _) hk⟩
      rw [List.take_of_length_le (by rw [length_fibonacciNumbers]; exact hk)]
      convert hdet using 2
      exact (List.flatMap_singleton' _).symm

end Csp
