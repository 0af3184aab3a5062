/-
# Networks of processes

Processes that talk over channels.  Each channel has one process that sends on it and one that
receives from it.  A send puts its value in line and returns when all values in line that have not
been received fit the capacity of the channel; with capacity `0` it returns when its value has been
received.

What a process has sent, received, closed and started is its own, and what it reads of the others
can only grow.  So the steps of different processes commute, and one run that cannot go on tells
what all runs do.

* `commutes` : the steps of a network commute, whatever its code is;
* `Determined`, `Reaches.determined` : what follows from a run that cannot go on.
-/
import Cocurrency.Lib.Confluence
import Cocurrency.Lib.Family

/-- The code of a process at some point: `τ` are the processes, `χ` the channels, `β` the values on
them, `ο` what is printed, and `κ` the points of the code. -/
inductive Network.Instr (τ χ β ο κ : Type*) where
  | send (c : χ) (v : β) (next : κ)
  /-- `none` is received when the channel is closed and empty. -/
  | recv (c : χ) (next : Option β → κ)
  | close (c : χ) (next : κ)
  | print (o : ο) (next : κ)
  | spawn (t : τ) (next : κ)
  /-- Wait until some processes have come to their ends. -/
  | join (ts : List τ) (next : κ)
  | finished

/-- Processes over channels, each with one sender and one receiver; what a process does next is an
instruction. -/
structure Network (τ χ β ο κ : Type*) where
  code : κ → Network.Instr τ χ β ο κ
  entry : τ → κ
  /-- The process that starts a process; the others run from the beginning. -/
  starter : τ → Option τ
  sender : χ → τ
  receiver : χ → τ
  capacity : χ → ℕ

namespace Network

/-- Where a process is. -/
inductive Phase (χ κ : Type*) where
  | running (k : κ)
  /-- in a send -/
  | sending (c : χ) (next : κ)
  | panicked

/-- A process and what it has sent and received; nobody else changes this. -/
structure Process (τ χ β κ : Type*) where
  phase : Phase χ κ
  /-- All that it has sent on each channel. -/
  sent : χ → List β
  /-- How much of it has been received. -/
  taken : χ → ℕ
  closed : χ → Bool
  started : τ → Bool

/-- What a step shows. -/
inductive Event (τ χ β ο : Type*) where
  | offers (c : χ) (v : β)
  /-- A send returns. -/
  | sends (c : χ)
  | receives (c : χ) (v : β)
  | ends (c : χ)
  | closes (c : χ)
  | prints (o : ο)
  | spawns (t : τ)
  | joins
  | panics

/-- What is printed. -/
def Event.output {τ χ β ο : Type*} : Event τ χ β ο → Option ο
  | .prints o => some o
  | _ => none

variable {τ χ β ο κ : Type*} [DecidableEq τ] [DecidableEq χ]

/-- Before it has done anything. -/
def Process.new (k : κ) : Process τ χ β κ :=
  ⟨.running k, fun _ => [], fun _ => 0, fun _ => false, fun _ => false⟩

variable (net : Network τ χ β ο κ)

/-- A process before its first step. -/
def start (t : τ) : Process τ χ β κ := .new (net.entry t)

/-- The process runs from the beginning, or has been started. -/
def awake (s : τ → Process τ χ β κ) (t : τ) : Bool :=
  match net.starter t with
  | none => true
  | some u => (s u).started t

/-- The process has come to the end of its code. -/
def isFinished (p : Process τ χ β κ) : Bool :=
  match p.phase with
  | .running k =>
      match net.code k with
      | .finished => true
      | _ => false
  | _ => false

/-- What process `t` does next, at an instruction. -/
def exec (s : τ → Process τ χ β κ) (t : τ) :
    Instr τ χ β ο κ → Option (Event τ χ β ο × Process τ χ β κ)
  | .send c v next =>
      if net.sender c = t then
        if (s t).closed c then some (.panics, { s t with phase := .panicked })
        else
          some (.offers c v,
            { s t with
              phase := .sending c next
              sent := Function.update (s t).sent c ((s t).sent c ++ [v]) })
      else none
  | .recv c next =>
      if net.receiver c = t then
        match ((s (net.sender c)).sent c)[(s t).taken c]? with
        | some v =>
            some (.receives c v,
              { s t with
                phase := .running (next (some v))
                taken := Function.update (s t).taken c ((s t).taken c + 1) })
        | none =>
            if (s (net.sender c)).closed c then
              some (.ends c, { s t with phase := .running (next none) })
            else none
      else none
  | .close c next =>
      if net.sender c = t then
        if (s t).closed c then some (.panics, { s t with phase := .panicked })
        else
          some (.closes c,
            { s t with
              phase := .running next
              closed := Function.update (s t).closed c true })
      else none
  | .print o next => some (.prints o, { s t with phase := .running next })
  | .spawn u next =>
      some (.spawns u,
        { s t with
          phase := .running next
          started := Function.update (s t).started u true })
  | .join us next =>
      if us.all fun u => net.isFinished (s u) then
        some (.joins, { s t with phase := .running next })
      else none
  | .finished => none

/-- What process `t` does next. -/
def processStep (s : τ → Process τ χ β κ) (t : τ) :
    Option (Event τ χ β ο × Process τ χ β κ) :=
  if net.awake s t then
    match (s t).phase with
    | .running k => net.exec s t (net.code k)
    | .sending c next =>
        if ((s t).sent c).length ≤ (s (net.receiver c)).taken c + net.capacity c then
          some (.sends c, { s t with phase := .running next })
        else none
    | .panicked => none
  else none

/-- The next step of process `t`, unless it waits or has finished. -/
def step (s : τ → Process τ χ β κ) (t : τ) :
    Option ((τ × Event τ χ β ο) × (τ → Process τ χ β κ)) :=
  match net.processStep s t with
  | some (e, p) => some ((t, e), Function.update s t p)
  | none => none

/-- What a process has printed. -/
def printed (t : τ) (h : List (τ × Event τ χ β ο)) : List ο :=
  (eventsOf t h).filterMap Event.output

/-! ## The steps commute -/

/-- What other processes read of a process can only grow. -/
structure Process.Grows (p p' : Process τ χ β κ) : Prop where
  sent : ∀ c, p.sent c <+: p'.sent c
  taken : ∀ c, p.taken c ≤ p'.taken c
  closed : ∀ c, p.closed c = true → p'.closed c = true ∧ p'.sent c = p.sent c
  started : ∀ u, p.started u = true → p'.started u = true

omit [DecidableEq τ] [DecidableEq χ] in
/-- The phase of a process is its own business. -/
theorem Process.Grows.phase (p : Process τ χ β κ) (phase : Phase χ κ) :
    p.Grows { p with phase := phase } :=
  ⟨fun _ => List.prefix_rfl, fun _ => Nat.le_refl _, fun _ h => ⟨h, rfl⟩, fun _ h => h⟩

omit [DecidableEq τ] [DecidableEq χ] in
theorem Process.Grows.refl (p : Process τ χ β κ) : p.Grows p := Process.Grows.phase p p.phase

variable {net} {s s' : τ → Process τ χ β κ} {t u : τ} {p : Process τ χ β κ} {e : Event τ χ β ο}

/-! ### What the instructions do -/

/-- On a channel that is its own and open, a process offers the value and then waits in the send. -/
theorem exec_send {c : χ} (hsender : net.sender c = t) (hopen : (s t).closed c = false) (v : β)
    (next : κ) : net.exec s t (.send c v next) =
      some (.offers c v,
        { s t with
          phase := .sending c next
          sent := Function.update (s t).sent c ((s t).sent c ++ [v]) }) := by
  rw [exec, if_pos hsender, hopen]
  rfl

/-- A value is there to be received. -/
theorem exec_recv {c : χ} (hreceiver : net.receiver c = t) {v : β}
    (hv : ((s (net.sender c)).sent c)[(s t).taken c]? = some v) (next : Option β → κ) :
    net.exec s t (.recv c next) =
      some (.receives c v,
        { s t with
          phase := .running (next (some v))
          taken := Function.update (s t).taken c ((s t).taken c + 1) }) := by
  rw [exec, if_pos hreceiver, hv]

/-- All is received, and the channel is closed. -/
theorem exec_recv_end {c : χ} (hreceiver : net.receiver c = t)
    (hnone : ((s (net.sender c)).sent c)[(s t).taken c]? = none)
    (hclosed : (s (net.sender c)).closed c = true) (next : Option β → κ) :
    net.exec s t (.recv c next) =
      some (.ends c, { s t with phase := .running (next none) }) := by
  rw [exec, if_pos hreceiver, hnone]
  exact if_pos hclosed

/-- A process closes a channel of its own. -/
theorem exec_close {c : χ} (hsender : net.sender c = t) (hopen : (s t).closed c = false)
    (next : κ) : net.exec s t (.close c next) =
      some (.closes c,
        { s t with
          phase := .running next
          closed := Function.update (s t).closed c true }) := by
  rw [exec, if_pos hsender, hopen]
  rfl

/-- An instruction adds to what the process has sent and received. -/
theorem grows_exec {i : Instr τ χ β ο κ} (h : net.exec s t i = some (e, p)) : (s t).Grows p := by
  cases i with
  | send c v next =>
      rw [exec] at h
      split at h
      · split at h
        · cases h
          exact Process.Grows.phase _ _
        · next hopen =>
          cases h
          refine ⟨fun d => ?_, fun _ => Nat.le_refl _, fun d hd => ⟨hd, ?_⟩, fun _ h => h⟩
          · rcases eq_or_ne d c with rfl | hne
            · simp
            · simp [hne]
          · rcases eq_or_ne d c with rfl | hne
            · exact absurd hd hopen
            · simp [hne]
      · cases h
  | recv c next =>
      rw [exec] at h
      split at h
      · split at h
        · cases h
          refine ⟨fun _ => List.prefix_rfl, fun d => ?_, fun _ h => ⟨h, rfl⟩, fun _ h => h⟩
          rcases eq_or_ne d c with rfl | hne
          · simp
          · simp [hne]
        · split at h
          · cases h
            exact Process.Grows.phase _ _
          · cases h
      · cases h
  | close c next =>
      rw [exec] at h
      split at h
      · split at h
        · cases h
          exact Process.Grows.phase _ _
        · cases h
          refine ⟨fun _ => List.prefix_rfl, fun _ => Nat.le_refl _, fun d hd => ⟨?_, rfl⟩,
            fun _ h => h⟩
          rcases eq_or_ne d c with rfl | hne
          · simp
          · simpa [hne] using hd
      · cases h
  | print o next =>
      cases h
      exact Process.Grows.phase _ _
  | spawn u next =>
      cases h
      refine ⟨fun _ => List.prefix_rfl, fun _ => Nat.le_refl _, fun _ h => ⟨h, rfl⟩, fun v hv => ?_⟩
      rcases eq_or_ne v u with rfl | hne
      · simp
      · simpa [hne] using hv
  | join us next =>
      rw [exec] at h
      split at h
      · cases h
        exact Process.Grows.phase _ _
      · cases h
  | finished => cases h

/-- So does a step of the process. -/
theorem grows_processStep (h : net.processStep s t = some (e, p)) : (s t).Grows p := by
  rw [processStep] at h
  split at h
  · split at h
    · exact grows_exec h
    · split at h
      · cases h
        exact Process.Grows.phase _ _
      · cases h
    · cases h
  · cases h

/-- A process that has come to its end does nothing. -/
theorem not_finished_of_step (h : net.processStep s t = some (e, p)) :
    net.isFinished (s t) = false := by
  rw [processStep] at h
  split at h
  · rw [isFinished]
    split
    · next k hphase =>
      split
      · next hcode =>
        rw [hphase] at h
        dsimp only at h
        rw [hcode] at h
        cases h
      · rfl
    · rfl
  · cases h

omit [DecidableEq τ] [DecidableEq χ] in
/-- The code is at its end. -/
theorem isFinished_of_code {k : κ} (hphase : p.phase = .running k)
    (hcode : net.code k = .finished) : net.isFinished p = true := by
  rw [isFinished, hphase]
  dsimp only
  rw [hcode]

/-- A process that has finished does nothing. -/
theorem processStep_of_finished (h : net.isFinished (s t) = true) : net.processStep s t = none := by
  cases hstep : net.processStep s t with
  | none => rfl
  | some r =>
      obtain ⟨e, p⟩ := r
      rw [not_finished_of_step hstep] at h
      cases h

/-- What a process can do it still can when the others have gone on. -/
theorem exec_stable {i : Instr τ χ β ο κ} (h : net.exec s t i = some (e, p)) (hself : s' t = s t)
    (hgrows : ∀ u, (s u).Grows (s' u))
    (hfinished : ∀ u, net.isFinished (s u) = true → net.isFinished (s' u) = true) :
    net.exec s' t i = some (e, p) := by
  cases i with
  | recv c next =>
      rw [exec] at h ⊢
      rw [hself]
      split at h
      · next hreceiver =>
        rw [if_pos hreceiver]
        split at h
        · next v hv =>
          obtain ⟨more, hmore⟩ := (hgrows (net.sender c)).sent c
          obtain ⟨hlt, -⟩ := List.getElem?_eq_some_iff.mp hv
          rw [← hmore, List.getElem?_append_left hlt, hv]
          exact h
        · next hnone =>
          split at h
          · next hclosed =>
            obtain ⟨hclosed', hsent⟩ := (hgrows (net.sender c)).closed c hclosed
            rw [hsent, hnone, hclosed']
            exact h
          · cases h
      · cases h
  | join us next =>
      rw [exec] at h ⊢
      rw [hself]
      split at h
      · next hall =>
        rw [if_pos]
        · exact h
        · exact List.all_eq_true.mpr fun u hu => hfinished u (List.all_eq_true.mp hall u hu)
      · cases h
  | finished => cases h
  | _ =>
      rw [exec] at h ⊢
      rw [hself]
      exact h

/-- **What a process can do it can still do later**, and with the same result, if the others have
only gone on. -/
theorem processStep_stable (h : net.processStep s t = some (e, p)) (hself : s' t = s t)
    (hgrows : ∀ u, (s u).Grows (s' u))
    (hfinished : ∀ u, net.isFinished (s u) = true → net.isFinished (s' u) = true) :
    net.processStep s' t = some (e, p) := by
  rw [processStep] at h ⊢
  split at h
  · next hawake =>
    have hawake' : net.awake s' t = true := by
      rw [awake] at hawake ⊢
      split
      · rfl
      · next v hstarter =>
        rw [hstarter] at hawake
        exact (hgrows v).started t hawake
    rw [if_pos hawake', hself]
    split at h
    · exact exec_stable h hself hgrows hfinished
    · next c next hphase =>
      split at h
      · next hle =>
        have hle' := Nat.le_trans hle (Nat.add_le_add_right ((hgrows (net.receiver c)).taken c)
          (net.capacity c))
        dsimp only
        rw [if_pos hle']
        exact h
      · cases h
    · cases h
  · cases h

/-- A step of the network is a step of one process. -/
theorem step_eq_some {e : τ × Event τ χ β ο} (h : net.step s t = some (e, s')) :
    ∃ e₁ p, net.processStep s t = some (e₁, p) ∧ e = (t, e₁) ∧ s' = Function.update s t p := by
  rw [step] at h
  split at h
  · next e₁ p hp =>
    cases h
    exact ⟨e₁, p, hp, rfl, rfl⟩
  · cases h

/-- And a step of a process is one of the network. -/
theorem step_of_processStep (h : net.processStep s t = some (e, p)) :
    net.step s t = some ((t, e), Function.update s t p) := by
  rw [step, h]

/-- Another process has made a step. -/
theorem step_update (hut : u ≠ t) (h : net.processStep s t = some (e, p)) {e' : Event τ χ β ο}
    {q : Process τ χ β κ} (hu : net.processStep s u = some (e', q)) :
    net.step (Function.update s u q) t =
      some ((t, e), Function.update (Function.update s u q) t p) := by
  apply step_of_processStep
  apply processStep_stable h (Function.update_of_ne hut.symm q s)
  · intro v
    rcases eq_or_ne v u with rfl | hne
    · rw [Function.update_self]
      exact grows_processStep hu
    · rw [Function.update_of_ne hne]
      exact Process.Grows.refl _
  · intro v hv
    rcases eq_or_ne v u with rfl | hne
    · rw [not_finished_of_step hu] at hv
      cases hv
    · rw [Function.update_of_ne hne]
      exact hv

/-- **The steps of a network commute.** -/
theorem commutes (net : Network τ χ β ο κ) : Commutes net.step := by
  intro s a b e₁ s₁ e₂ s₂ hab ha hb
  obtain ⟨e₁, p, hp, rfl, rfl⟩ := step_eq_some ha
  obtain ⟨e₂, q, hq, rfl, rfl⟩ := step_eq_some hb
  refine ⟨_, step_update hab hq hp, ?_⟩
  rw [step_update hab.symm hp hq, Function.update_comm hab]

/-- What one process prints is observed. -/
def printedBy (t : τ) (e : τ × Event τ χ β ο) : Option ο :=
  if e.1 = t then e.2.output else none

omit [DecidableEq χ] in
/-- The lines of a process, one event at a time. -/
theorem printed_eq (t : τ) (h : List (τ × Event τ χ β ο)) :
    printed t h = h.filterMap (printedBy t) := by
  rw [printed, eventsOf, List.filterMap_filterMap]
  congr
  funext e
  rw [printedBy]
  split
  · rfl
  · rfl

/-- Each line is printed by one process. -/
theorem seesOne (net : Network τ χ β ο κ) (t : τ) : SeesOne net.step (printedBy t) := by
  intro s a b e₁ s₁ e₂ s₂ hab ha hb
  obtain ⟨e₁, p, -, rfl, -⟩ := step_eq_some ha
  obtain ⟨e₂, q, -, rfl, -⟩ := step_eq_some hb
  by_cases hat : a = t
  · exact Or.inr (if_neg fun hbt => hab (hat.trans hbt.symm))
  · exact Or.inl (if_neg hat)

/-- A process that has panicked stays so. -/
theorem panicked_step {e : τ × Event τ χ β ο} (h : net.step s t = some (e, s'))
    (hu : (s u).phase = .panicked) : (s' u).phase = .panicked := by
  obtain ⟨e₁, p, hp, rfl, rfl⟩ := step_eq_some h
  rcases eq_or_ne u t with rfl | hne
  · rw [processStep, hu] at hp
    split at hp
    · cases hp
    · cases hp
  · rw [Function.update_of_ne hne]
    exact hu

/-! ## What one run tells of all -/

variable (net) in
/-- Some run leads from `s` to `s'`, in which process `t` prints `out t`. -/
def Reaches (s s' : τ → Process τ χ β κ) (out : τ → List ο) : Prop :=
  ∃ h, Run net.step anyStep s h s' ∧ ∀ t, printed t h = out t

namespace Reaches

variable {s'' : τ → Process τ χ β κ} {out out' : τ → List ο}

/-- Where nothing is done, nothing is printed. -/
theorem refl (s : τ → Process τ χ β κ) : net.Reaches s s fun _ => [] :=
  ⟨[], .nil, fun _ => rfl⟩

/-- One stretch of a run after the other. -/
theorem trans (h : net.Reaches s s' out) (h' : net.Reaches s' s'' out') :
    net.Reaches s s'' fun t => out t ++ out' t := by
  obtain ⟨h, hr, hout⟩ := h
  obtain ⟨h', hr', hout'⟩ := h'
  refine ⟨h ++ h', hr.trans hr', fun t => ?_⟩
  rw [printed_eq, List.filterMap_append, ← printed_eq, ← printed_eq, hout, hout']

/-- The same lines, in other words. -/
theorem cast (h : net.Reaches s s' out) (heq : out = out') : net.Reaches s s' out' := heq ▸ h

/-- A step. -/
theorem single (h : net.processStep s t = some (e, p)) :
    net.Reaches s (Function.update s t p) fun u => if u = t then e.output.toList else [] := by
  refine ⟨[(t, e)], Run.nil.snoc trivial (step_of_processStep h), fun u => ?_⟩
  rw [printed_eq]
  by_cases hut : u = t
  · subst hut
    cases ho : e.output with
    | none => simp [printedBy, ho]
    | some o => simp [printedBy, ho]
  · have hne : t ≠ u := fun h => hut h.symm
    simp [printedBy, hut, hne]

/-- A step in which nothing is printed. -/
theorem quiet (h : net.processStep s t = some (e, p)) (he : e.output = none) :
    net.Reaches s (Function.update s t p) fun _ => [] := by
  apply (single h).cast
  funext u
  simp [he]

end Reaches

/-- A process that is not in a send executes its next instruction. -/
theorem processStep_running {k : κ} (hawake : net.awake s t = true)
    (hphase : (s t).phase = .running k) : net.processStep s t = net.exec s t (net.code k) := by
  rw [processStep, if_pos hawake, hphase]

/-- A process in a send returns from it when there is room. -/
theorem processStep_sending (c : χ) (next : κ) (hawake : net.awake s t = true)
    (hphase : (s t).phase = .sending c next) : net.processStep s t =
      if ((s t).sent c).length ≤ (s (net.receiver c)).taken c + net.capacity c then
        some (.sends c, { s t with phase := .running next })
      else none := by
  rw [processStep, if_pos hawake, hphase]

/-- Where the process cannot go on, the network does not. -/
theorem step_eq_none (h : net.processStep s t = none) : net.step s t = none := by
  rw [step, h]

/-! ### Two processes at work -/

/-- Two processes in the place of two. -/
def both (s : τ → Process τ χ β κ) (t u : τ) (A B : Process τ χ β κ) : τ → Process τ χ β κ :=
  Function.update (Function.update s t A) u B

/-- The lines of two processes. -/
def lines (t u : τ) (out out' : List ο) (v : τ) : List ο :=
  if v = t then out else if v = u then out' else []

section Two

variable {A B A' B' : Process τ χ β κ}

/-- The lines of two processes, one stretch after the other. -/
theorem lines_append (out₁ out₁' out₂ out₂' : List ο) :
    (fun v => lines t u out₁ out₁' v ++ lines t u out₂ out₂' v) =
      lines t u (out₁ ++ out₂) (out₁' ++ out₂') := by
  funext v
  unfold lines
  split
  · rfl
  · split
    · rfl
    · rfl

omit [DecidableEq χ] in
theorem both_right : both s t u A B u = B := by
  rw [both, Function.update_self]

omit [DecidableEq χ] in
theorem both_left (hne : t ≠ u) : both s t u A B t = A := by
  rw [both, Function.update_of_ne hne, Function.update_self]

omit [DecidableEq χ] in
theorem both_other {v : τ} (ht : v ≠ t) (hu : v ≠ u) : both s t u A B v = s v := by
  rw [both, Function.update_of_ne hu, Function.update_of_ne ht]

omit [DecidableEq χ] in
theorem update_both_right : Function.update (both s t u A B) u B' = both s t u A B' :=
  Function.update_idem _ _ _

omit [DecidableEq χ] in
theorem update_both_left (hne : t ≠ u) :
    Function.update (both s t u A B) t A' = both s t u A' B := by
  rw [both, both, Function.update_comm hne.symm, Function.update_idem]

/-- A step of the first of two processes, with its line if it prints one. -/
theorem Reaches.left (hne : t ≠ u) (h : net.processStep (both s t u A B) t = some (e, A')) :
    net.Reaches (both s t u A B) (both s t u A' B) (lines t u e.output.toList []) := by
  have hreaches := Reaches.single h
  rw [update_both_left hne] at hreaches
  apply hreaches.cast
  funext v
  rw [lines]
  split
  · rfl
  · rw [ite_self]

/-- A step of the second of two processes, with its line if it prints one. -/
theorem Reaches.right (hne : t ≠ u) (h : net.processStep (both s t u A B) u = some (e, B')) :
    net.Reaches (both s t u A B) (both s t u A B') (lines t u [] e.output.toList) := by
  have hreaches := Reaches.single h
  rw [update_both_right] at hreaches
  apply hreaches.cast
  funext v
  rw [lines]
  by_cases hvt : v = t
  · rw [if_pos hvt, if_neg fun hvu => hne (hvt.symm.trans hvu)]
  · rw [if_neg hvt]

end Two

/-! ### All runs -/

/-- Whatever the schedule: no run goes on for ever, no process panics, process `t` prints a prefix
of `out t`, and where the processes cannot go on they are in the state `final` and have printed all
of `out`, after the same number of steps. -/
structure Determined (net : Network τ χ β ο κ) (final : τ → Process τ χ β κ)
    (out : τ → List ο) : Prop where
  halts : Halts net.step net.start
  calm : ∀ h s, Run net.step anyStep net.start h s → ∀ t, (s t).phase ≠ .panicked
  printed : ∀ h s, Run net.step anyStep net.start h s → ∀ t, printed t h <+: out t
  ends : ∀ h s, Run net.step anyStep net.start h s → (∀ t, net.step s t = none) →
    s = final ∧ ∀ t, Network.printed t h = out t
  length : ∀ h s h' s', Run net.step anyStep net.start h s → (∀ t, net.step s t = none) →
    Run net.step anyStep net.start h' s' → (∀ t, net.step s' t = none) → h.length = h'.length

/-- **One run tells what all do.** -/
theorem Reaches.determined {final : τ → Process τ χ β κ} {out : τ → List ο}
    (h : net.Reaches net.start final out) (hend : ∀ t, net.step final t = none)
    (hcalm : ∀ t, (final t).phase ≠ .panicked) : net.Determined final out := by
  obtain ⟨h, hr, hout⟩ := h
  refine ⟨hr.halts net.commutes hend, fun h' s hr' t hpanicked => ?_, fun h' s hr' t => ?_,
    fun h' s hr' hend' => ⟨?_, fun t => ?_⟩, fun h₁ s₁ h₂ s₂ hr₁ hend₁ hr₂ hend₂ => ?_⟩
  · obtain ⟨rest, hrest, -, -⟩ := hr.completes net.commutes (net.seesOne t) hend hr'
    refine hcalm t (hrest.invariant (fun _ s => (s t).phase = .panicked) hpanicked ?_)
    exact fun _ _ _ _ _ hp _ hs => panicked_step hs hp
  · obtain ⟨rest, -, -, hseen⟩ := hr.completes net.commutes (net.seesOne t) hend hr'
    rw [← hout t, printed_eq, printed_eq, hseen, List.filterMap_append]
    exact List.prefix_append _ _
  · exact (hr.unique_end net.commutes (seesOne_none _) hend hr' hend').1
  · rw [← hout t, printed_eq, printed_eq]
    exact (hr.unique_end net.commutes (net.seesOne t) hend hr' hend').2.2
  · exact (hr₂.unique_end net.commutes (seesOne_none _) hend₂ hr₁ hend₁).2.1

/-- All processes have come to their ends. -/
theorem Reaches.determined_of_finished {final : τ → Process τ χ β κ} {out : τ → List ο}
    (h : net.Reaches net.start final out) (hall : ∀ t, net.isFinished (final t) = true) :
    net.Determined final out := by
  refine h.determined (fun t => step_eq_none (processStep_of_finished (hall t))) ?_
  intro t hpanicked
  have hno := hall t
  rw [isFinished, hpanicked] at hno
  cases hno

end Network
