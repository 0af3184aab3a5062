/-
# Escapes by exceptions (`call_cc` of `python/continuation_cps/continuation_cps.py`)

`call_cc` hands its body a `Continuation` whose `invoke` raises an exception, and catches it.  The
class of this exception is made anew by each call, so each call catches its own only.

The programs (`Prog`) that use it consist of values, actions on a state, sequencing, calls of
`call_cc` and invocations of the continuations in scope, that is, of those calls that are still
running; what a helper function does stands where it is called.  Their reference meaning
(`reference`) is in continuation-passing style: there `call_cc` hands its body the continuation
itself.

`run_meets` : a program returns where the reference meaning goes on with its continuation, and
raises the exception of the `i`-th enclosing call where the reference meaning goes on with the
continuation of that call, with the same value in the same state.  A whole program therefore
returns (`callCc_correct`).
-/
import Mathlib.Data.Fin.Tuple.Basic

namespace Cps

variable {σ α : Type}

/-! ## `call_cc` -/

/-- What can be changed: the state of the program, and how many classes have been made. -/
structure World (σ : Type) where
  state : σ
  classes : ℕ

/-- How a call ends: it returns a value, or raises the `Jump` of some class. -/
inductive Outcome (α : Type) where
  | returned (value : α)
  | raised (jump : ℕ) (value : α)
  deriving DecidableEq, Repr

/-- A Python expression. -/
abbrev Comp (σ α : Type) := World σ → Outcome α × World σ

/-- `raise Jump(value)`. -/
def raiseJump (jump : ℕ) (value : α) : Comp σ α := fun w => (.raised jump value, w)

/-- `Continuation`. -/
structure Continuation (σ α : Type) where
  fn : α → Comp σ α

/-- `Continuation.invoke`. -/
def Continuation.invoke (c : Continuation σ α) (value : α) : Comp σ α := c.fn value

/-- `call_cc`. -/
def callCc (fn : Continuation σ α → Comp σ α) : Comp σ α := fun w =>
  let jump := w.classes
  match fn ⟨raiseJump jump⟩ { w with classes := jump + 1 } with
  | (.returned result, w) => (.returned result, w)
  | (.raised cls value, w) =>
      if cls = jump then (.returned value, w) else (.raised cls value, w)

/-- One expression after the other, as long as no exception is raised. -/
def andThen (first : Comp σ α) (next : α → Comp σ α) : Comp σ α := fun w =>
  match first w with
  | (.returned value, w) => next value w
  | (.raised jump value, w) => (.raised jump value, w)

/-! ## Programs -/

/-- A program inside of `n` calls of `call_cc`, the innermost of which is number 0. -/
inductive Prog (σ α : Type) : ℕ → Type where
  | value {n : ℕ} (v : α) : Prog σ α n
  | action {n : ℕ} (act : σ → α × σ) : Prog σ α n
  | seq {n : ℕ} (first : Prog σ α n) (next : α → Prog σ α n) : Prog σ α n
  | callCc {n : ℕ} (body : Prog σ α (n + 1)) : Prog σ α n
  | invoke {n : ℕ} (i : Fin n) (v : α) : Prog σ α n

/-- What Python does. -/
def run : {n : ℕ} → Prog σ α n → (Fin n → Continuation σ α) → Comp σ α
  | _, .value v, _ => fun w => (.returned v, w)
  | _, .action act, _ => fun w => (.returned (act w.state).1, { w with state := (act w.state).2 })
  | _, .seq first next, env => andThen (run first env) fun v => run (next v) env
  | _, .callCc body, env => callCc fun c => run body (Fin.cons c env)
  | _, .invoke i v, env => (env i).invoke v

/-- The reference meaning: `k` is the rest of the computation, `conts i` the rest after the `i`-th
enclosing call. -/
def reference {ρ : Type} : {n : ℕ} → Prog σ α n → (Fin n → α → σ → ρ) → (α → σ → ρ) → σ → ρ
  | _, .value v, _, k, s => k v s
  | _, .action act, _, k, s => k (act s).1 (act s).2
  | _, .seq first next, conts, k, s =>
      reference first conts (fun v s => reference (next v) conts k s) s
  | _, .callCc body, conts, k, s => reference body (Fin.cons k conts) k s
  | _, .invoke i v, conts, _, s => conts i v s

/-! ## Each call catches its own exception -/

/-- The calls of `call_cc` that are running: the classes that they have made, all of them
different, and how many there are. -/
structure Enclosing (n : ℕ) where
  jump : Fin n → ℕ
  made : ℕ
  distinct : Function.Injective jump
  old : ∀ i, jump i < made

namespace Enclosing

variable {n : ℕ}

/-- No call is running. -/
def none (made : ℕ) : Enclosing 0 :=
  ⟨Fin.elim0, made, fun i => i.elim0, fun i => i.elim0⟩

/-- More classes have been made. -/
def later (e : Enclosing n) {made : ℕ} (h : e.made ≤ made) : Enclosing n :=
  ⟨e.jump, made, e.distinct, fun i => Nat.lt_of_lt_of_le (e.old i) h⟩

/-- One more call: its class is new. -/
def enter (e : Enclosing n) : Enclosing (n + 1) where
  jump := Fin.cons e.made e.jump
  made := e.made + 1
  distinct := by
    rw [Fin.cons_injective_iff]
    refine ⟨?_, e.distinct⟩
    rintro ⟨i, hi⟩
    exact Nat.ne_of_lt (e.old i) hi
  old := by
    intro i
    refine Fin.cases ?_ (fun i => ?_) i
    · exact Nat.lt_succ_self e.made
    · exact Nat.lt_succ_of_lt (e.old i)

/-- The continuations that the running calls have handed out. -/
def conts (e : Enclosing n) : Fin n → Continuation σ α := fun i => ⟨raiseJump (e.jump i)⟩

theorem conts_enter (e : Enclosing n) :
    (e.enter.conts : Fin (n + 1) → Continuation σ α) = Fin.cons ⟨raiseJump e.made⟩ e.conts := by
  funext i
  refine Fin.cases ?_ (fun i => ?_) i <;> rfl

end Enclosing

/-- What Python has done, `out`, is what the reference meaning does: it has returned and this goes
on with its continuation, or it has escaped to the `i`-th enclosing call and so does this. -/
def Meets {n : ℕ} (e : Enclosing n) (p : Prog σ α n) (s : σ) (out : Outcome α × World σ) : Prop :=
  e.made ≤ out.2.classes ∧
    ((∃ v, out.1 = .returned v ∧
        ∀ {ρ : Type} (conts : Fin n → α → σ → ρ) k, reference p conts k s = k v out.2.state) ∨
      ∃ i v, out.1 = .raised (e.jump i) v ∧
        ∀ {ρ : Type} (conts : Fin n → α → σ → ρ) k, reference p conts k s = conts i v out.2.state)

/-- **Sequencing.**  An exception skips what follows. -/
theorem meets_seq {n : ℕ} {e : Enclosing n} {first : Prog σ α n} {next : α → Prog σ α n} {s : σ}
    (hfirst : Meets e first s (run first e.conts ⟨s, e.made⟩))
    (hnext : ∀ v s made (h : e.made ≤ made),
      Meets (e.later h) (next v) s (run (next v) e.conts ⟨s, made⟩)) :
    Meets e (.seq first next) s (run (.seq first next) e.conts ⟨s, e.made⟩) := by
  unfold run andThen
  generalize run first e.conts ⟨s, e.made⟩ = result at hfirst ⊢
  obtain ⟨out, w⟩ := result
  obtain ⟨hmade, ⟨v, rfl, href⟩ | ⟨i, v, rfl, href⟩⟩ := hfirst
  · obtain ⟨hmade', hout⟩ := hnext v w.state w.classes hmade
    refine ⟨Nat.le_trans hmade hmade', ?_⟩
    obtain ⟨u, hu, href'⟩ | ⟨i, u, hu, href'⟩ := hout
    · left
      refine ⟨u, hu, fun conts k => ?_⟩
      exact (href conts _).trans (href' conts k)
    · right
      refine ⟨i, u, hu, fun conts k => ?_⟩
      exact (href conts _).trans (href' conts k)
  · refine ⟨hmade, .inr ⟨i, v, rfl, fun conts k => ?_⟩⟩
    exact href conts _

/-- **A call of `call_cc`.**  It returns what its body returns, or what its own continuation has
been invoked with; the exceptions of the other calls pass through. -/
theorem meets_callCc {n : ℕ} {e : Enclosing n} {body : Prog σ α (n + 1)} {s : σ}
    (hbody : Meets e.enter body s (run body e.enter.conts ⟨s, e.made + 1⟩)) :
    Meets e (.callCc body) s (run (.callCc body) e.conts ⟨s, e.made⟩) := by
  rw [Enclosing.conts_enter] at hbody
  unfold run callCc
  simp only
  generalize run body (Fin.cons ⟨raiseJump e.made⟩ e.conts) ⟨s, e.made + 1⟩ = result at hbody ⊢
  obtain ⟨out, w⟩ := result
  obtain ⟨hmade, ⟨v, rfl, href⟩ | ⟨i, v, rfl, href⟩⟩ := hbody
  · refine ⟨Nat.le_of_succ_le hmade, .inl ⟨v, rfl, fun conts k => ?_⟩⟩
    exact href (Fin.cons k conts) k
  · have hmade' : e.made ≤ w.classes := Nat.le_of_succ_le hmade
    revert href
    refine Fin.cases ?_ (fun j => ?_) i
    · intro href
      -- the exception of this call
      have hcatch : e.enter.jump 0 = e.made := rfl
      simp only [hcatch, if_true]
      exact ⟨hmade', .inl ⟨v, rfl, fun conts k => href (Fin.cons k conts) k⟩⟩
    · intro href
      -- the exception of the `j`-th call around this one
      have hpass : e.enter.jump j.succ ≠ e.made := Nat.ne_of_lt (e.old j)
      simp only [hpass, if_false]
      exact ⟨hmade', .inr ⟨j, v, rfl, fun conts k => href (Fin.cons k conts) k⟩⟩

/-- **Programs inside of running calls.** -/
theorem run_meets {n : ℕ} (p : Prog σ α n) (e : Enclosing n) (s : σ) :
    Meets e p s (run p e.conts ⟨s, e.made⟩) := by
  induction p generalizing s with
  | value v => exact ⟨Nat.le_refl _, .inl ⟨v, rfl, fun _ _ => rfl⟩⟩
  | action act => exact ⟨Nat.le_refl _, .inl ⟨_, rfl, fun _ _ => rfl⟩⟩
  | seq first next ihf ihn => exact meets_seq (ihf e s) fun v s made h => ihn v (e.later h) s
  | callCc body ih => exact meets_callCc (ih e.enter s)
  | invoke i v => exact ⟨Nat.le_refl _, .inr ⟨i, v, rfl, fun _ _ => rfl⟩⟩

/-- **`call_cc` gives properly nested escapes.**  A whole program raises nothing and returns what
the reference meaning hands to the rest of the computation, in the same state; and every part of
it, inside of whichever calls, returns or escapes to one of them as the reference meaning does. -/
theorem callCc_correct :
    (∀ (p : Prog σ α 0) (env : Fin 0 → Continuation σ α) (w : World σ),
      ∃ v, (run p env w).1 = .returned v ∧
        ∀ {ρ : Type} (conts : Fin 0 → α → σ → ρ) (k : α → σ → ρ),
          reference p conts k w.state = k v (run p env w).2.state) ∧
    ∀ {n : ℕ} (p : Prog σ α n) (e : Enclosing n) (s : σ),
      Meets e p s (run p e.conts ⟨s, e.made⟩) := by
  refine ⟨fun p env w => ?_, run_meets⟩
  obtain rfl : env = (Enclosing.none w.classes).conts := by
    funext i
    exact i.elim0
  obtain ⟨-, ⟨v, hv, href⟩ | ⟨i, -⟩⟩ := run_meets p (Enclosing.none w.classes) w.state
  · exact ⟨v, hv, href⟩
  · exact i.elim0

/-- The inner call does not catch what is meant for the outer one, and what follows is skipped. -/
example : (run (σ := Unit) (.callCc (.seq (.callCc (.invoke 1 7)) fun v => .value (v + 1)))
    Fin.elim0 ⟨(), 0⟩).1 = .returned 7 := by decide

end Cps
