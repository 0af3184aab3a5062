/-
# Unbuffered channels

On an unbuffered channel a `send` should not return before its value has been received: at any
time at most as many calls of `send` have returned as values have been received.

* `Parties` : threads that send and receive given numbers of values, on any of the three channels
  that threads share;
* `Parties.rendezvous_iff` : on a channel that lets a `send` through at the start, all is well
  only if nothing is sent.
-/
import Cocurrency.Csp.Channel
import Cocurrency.Csp.CppChannel
import Cocurrency.Csp.JavaChannel

namespace Csp

/-- At most as many calls of `send` have returned as values have been received. -/
def Rendezvous {ε α : Type*} (returns : ε → Bool) (take : ε → Option α) (h : List ε) : Prop :=
  h.countP returns ≤ (h.filterMap take).length

/-! ## Senders and receivers -/

/-- How a thread uses a channel: the actions of the channel's system. -/
structure Calls (ι α act : Type*) where
  send : ι → α → act
  recv : ι → act
  /-- the call that the thread is in goes on -/
  go : ι → act

/-- Threads with what they have still to do: the values to send, the number of values to
receive. -/
structure Parties (σ ι α : Type*) where
  sys : σ
  toSend : ι → List α
  toReceive : ι → ℕ

/-- A thread calls `send` with its next value, or `recv`, or goes on with its call. -/
inductive Turn (ι : Type*) where
  | send (t : ι)
  | recv (t : ι)
  | go (t : ι)

namespace Parties

variable {σ ι α act ε : Type*} [DecidableEq ι]

/-- The next step: a party calls, if it has something to do, or goes on with its call. -/
def step (sys : σ → act → Option (ε × σ)) (calls : Calls ι α act) (p : Parties σ ι α) :
    Turn ι → Option (ε × Parties σ ι α)
  | .send t =>
      match p.toSend t with
      | [] => none
      | item :: rest =>
          (sys p.sys (calls.send t item)).map fun r =>
            (r.1, { p with sys := r.2, toSend := Function.update p.toSend t rest })
  | .recv t =>
      match p.toReceive t with
      | 0 => none
      | count + 1 =>
          (sys p.sys (calls.recv t)).map fun r =>
            (r.1, { p with sys := r.2, toReceive := Function.update p.toReceive t count })
  | .go t => (sys p.sys (calls.go t)).map fun r => (r.1, { p with sys := r.2 })

/-- In every run of these senders and receivers, the `send` calls wait for the receivers. -/
def AlwaysRendezvous (sys : σ → act → Option (ε × σ)) (calls : Calls ι α act) (returns : ε → Bool)
    (take : ε → Option α) (s₀ : σ) (toSend : ι → List α) (toReceive : ι → ℕ) : Prop :=
  ∀ h p, Run (step sys calls) anyStep ⟨s₀, toSend, toReceive⟩ h p → Rendezvous returns take h

/-- With nothing to send, a step is a `recv`, or a call goes on. -/
theorem step_quiet {sys : σ → act → Option (ε × σ)} {calls : Calls ι α act} {p p' : Parties σ ι α}
    {a : Turn ι} {e : ε} (hnone : ∀ t, p.toSend t = []) (h : p.step sys calls a = some (e, p')) :
    p'.toSend = p.toSend ∧ ∃ t, sys p.sys (calls.recv t) = some (e, p'.sys) ∨
      sys p.sys (calls.go t) = some (e, p'.sys) := by
  unfold step at h
  cases a with
  | send t =>
      dsimp only at h
      rw [hnone t] at h
      cases h
  | recv t =>
      dsimp only at h
      split at h
      · cases h
      · obtain ⟨⟨e', s'⟩, hs, heq⟩ := Option.map_eq_some_iff.mp h
        cases heq
        exact ⟨rfl, t, Or.inl hs⟩
  | go t =>
      obtain ⟨⟨e', s'⟩, hs, heq⟩ := Option.map_eq_some_iff.mp h
      cases heq
      exact ⟨rfl, t, Or.inr hs⟩

/-- **Channels that let a `send` through.**  If at the start a `send` returns without further ado,
and no `send` returns while none is under way (`Quiet`), all is well if and only if nothing is
sent. -/
theorem rendezvous_iff {sys : σ → act → Option (ε × σ)} {calls : Calls ι α act}
    {returns : ε → Bool} {take : ε → Option α} {s₀ : σ} (Quiet : σ → Prop) (hquiet : Quiet s₀)
    (hkeep : ∀ t s e s', Quiet s →
      sys s (calls.recv t) = some (e, s') ∨ sys s (calls.go t) = some (e, s') →
        Quiet s' ∧ returns e = false)
    (hsend : ∀ t item, ∃ e₁ s₁ e₂ s₂, sys s₀ (calls.send t item) = some (e₁, s₁) ∧
      sys s₁ (calls.go t) = some (e₂, s₂) ∧ take e₁ = none ∧ take e₂ = none ∧ returns e₂ = true)
    (toSend : ι → List α) (toReceive : ι → ℕ) :
    AlwaysRendezvous sys calls returns take s₀ toSend toReceive ↔ ∀ t, toSend t = [] := by
  constructor
  · intro hall t
    cases hitems : toSend t with
    | nil => rfl
    | cons item rest =>
        -- the first `send` of `t` returns at once
        obtain ⟨e₁, s₁, e₂, s₂, hs₁, hs₂, htake₁, htake₂, hreturns⟩ := hsend t item
        have hstep₁ : step sys calls ⟨s₀, toSend, toReceive⟩ (.send t) =
            some (e₁, ⟨s₁, Function.update toSend t rest, toReceive⟩) := by
          simp only [step, hitems, hs₁, Option.map_some]
        have hstep₂ : step sys calls ⟨s₁, Function.update toSend t rest, toReceive⟩ (.go t) =
            some (e₂, ⟨s₂, Function.update toSend t rest, toReceive⟩) := by
          simp only [step, hs₂, Option.map_some]
        have hle : List.countP returns [e₁, e₂] ≤ (List.filterMap take [e₁, e₂]).length :=
          hall _ _ ((Run.nil.snoc trivial hstep₁).snoc trivial hstep₂)
        have htakes : List.filterMap take [e₁, e₂] = [] := by
          simp [htake₁, htake₂]
        have hcount : 0 < List.countP returns [e₁, e₂] :=
          List.countP_pos_iff.mpr ⟨e₂, by simp, hreturns⟩
        rw [htakes] at hle
        exact absurd hle (Nat.not_le_of_gt hcount)
  · intro hnone h p hr
    have hinv : (∀ e ∈ h, returns e = false) ∧ p.toSend = toSend ∧ Quiet p.sys := by
      refine Run.invariant
        (fun h p => (∀ e ∈ h, returns e = false) ∧ p.toSend = toSend ∧ Quiet p.sys)
        ⟨List.forall_mem_nil _, rfl, hquiet⟩ ?_ hr
      rintro h p a e p' ⟨hevents, hsame, hquiet⟩ _ hs
      obtain ⟨hsame', t, hsys⟩ := step_quiet (fun t => by rw [hsame]; exact hnone t) hs
      obtain ⟨hquiet', he⟩ := hkeep t _ _ _ hquiet hsys
      refine ⟨fun x hx => ?_, hsame'.trans hsame, hquiet'⟩
      rcases List.mem_append.mp hx with hx | hx
      · exact hevents x hx
      · rw [List.mem_singleton.mp hx]
        exact he
    have hzero : h.countP returns = 0 :=
      List.countP_eq_zero.mpr fun e he => Bool.eq_false_iff.mp (hinv.1 e he)
    rw [Rendezvous, hzero]
    exact Nat.zero_le _

end Parties

/-! ## The channels of threads -/

/-- Where nobody sends, nobody does so once a thread is somewhere else. -/
theorem update_ne {ι α φ : Type*} [DecidableEq ι] {sending : α → φ} {phase : ι → φ}
    (hquiet : ∀ u item, phase u ≠ sending item) (t : ι) {p : φ} (hp : ∀ item, p ≠ sending item) :
    ∀ u item, Function.update phase t p u ≠ sending item :=
  (Function.forall_update_iff phase fun _ p => ∀ item, p ≠ sending item).mpr
    ⟨hp, fun u _ => hquiet u⟩

namespace Threads

variable {ι α : Type*} [DecidableEq ι]

/-- How the parties call. -/
def calls : Calls ι α (Action ι α) := ⟨.send, .recv, .loop⟩

/-- Does a call of `send` return? -/
def Event.sendReturns {ι α : Type*} : Event ι α → Bool
  | .sent _ _ .accepted => true
  | _ => false

/-- The threads use one unbuffered channel. -/
def AlwaysRendezvous (toSend : ι → List α) (toReceive : ι → ℕ) : Prop :=
  Parties.AlwaysRendezvous step calls Event.sendReturns Event.take (start 0) toSend toReceive

/-- On a channel without a bound, the section of `send` succeeds. -/
theorem exists_send (t : ι) (item : α) : ∃ e₁ s₁ e₂ s₂,
    (start 0).step (.send t item) = some (e₁, s₁) ∧ s₁.step (.loop t) = some (e₂, s₂) ∧
      e₁.take = none ∧ e₂.take = none ∧ e₂.sendReturns = true := by
  have hphase : (start 0 : Threads ι α).setPhase t (.sending item) t = .sending item :=
    Function.update_self _ _ _
  refine ⟨_, _, .sent t item .accepted,
    ⟨⟨0, [item], false⟩, setPhase ⟨.new 0, (start 0).setPhase t (.sending item)⟩ t .idle⟩,
    rfl, ?_, rfl, rfl, rfl⟩
  simp only [step, hphase]
  rfl

theorem keeps_quiet {s s' : Threads ι α} {e : Event ι α} (t : ι)
    (hquiet : ∀ u item, s.phase u ≠ .sending item)
    (h : s.step (.recv t) = some (e, s') ∨ s.step (.loop t) = some (e, s')) :
    (∀ u item, s'.phase u ≠ .sending item) ∧ e.sendReturns = false := by
  rcases h with h | h
  · simp only [step] at h
    split at h
    · cases h
      exact ⟨update_ne hquiet t nofun, rfl⟩
    · cases h
  · simp only [step] at h
    split at h
    · cases h
    · next item hsending => exact absurd hsending (hquiet t item)
    · split at h
      · cases h
        exact ⟨hquiet, rfl⟩
      · cases h
        exact ⟨update_ne hquiet t nofun, rfl⟩

end Threads

namespace CppThreads

variable {ι α : Type*} [DecidableEq ι]

/-- How the parties call. -/
def calls : Calls ι α (Action ι α) := ⟨.send, .recv, .finish⟩

/-- Does a call of `send` return? -/
def Event.sendReturns {ι α : Type*} : Event ι α → Bool
  | .sent _ _ => true
  | _ => false

/-- The threads use one unbuffered channel. -/
def AlwaysRendezvous (toSend : ι → List α) (toReceive : ι → ℕ) : Prop :=
  Parties.AlwaysRendezvous step calls Event.sendReturns Event.take (start 0) toSend toReceive

/-- With capacity 0, the predicate of `send` holds of an open channel. -/
theorem exists_send (t : ι) (item : α) : ∃ e₁ s₁ e₂ s₂,
    (start 0).step (.send t item) = some (e₁, s₁) ∧ s₁.step (.finish t) = some (e₂, s₂) ∧
      e₁.take = none ∧ e₂.take = none ∧ e₂.sendReturns = true := by
  have hphase : (start 0 : CppThreads ι α).setPhase t (.sending item) t = .sending item :=
    Function.update_self _ _ _
  refine ⟨_, _, .sent t item,
    ⟨⟨0, false, [item]⟩, setPhase ⟨.new 0, (start 0).setPhase t (.sending item)⟩ t .idle⟩,
    rfl, ?_, rfl, rfl, rfl⟩
  simp only [step, hphase]
  rfl

theorem keeps_quiet {s s' : CppThreads ι α} {e : Event ι α} (t : ι)
    (hquiet : ∀ u, (s.phase u).isSending = false)
    (h : s.step (.recv t) = some (e, s') ∨ s.step (.finish t) = some (e, s')) :
    (∀ u, (s'.phase u).isSending = false) ∧ e.sendReturns = false := by
  rcases h with h | h
  · cases effect_step h with
    | recv t _ => exact ⟨Effect.not_sending rfl hquiet, rfl⟩
  · cases effect_step h with
    | sent t item hsending _ =>
        have hno := hquiet t
        rw [hsending] at hno
        cases hno
    | received t item rest _ => exact ⟨Effect.not_sending rfl hquiet, rfl⟩
    | recvThrew t _ _ => exact ⟨Effect.not_sending rfl hquiet, rfl⟩

end CppThreads

namespace JavaThreads

variable {ι α : Type*} [DecidableEq ι]

/-- How the parties call. -/
def calls : Calls ι α (Action ι α) := ⟨.send, .recv, .finish⟩

/-- Does a call of `send` return? -/
def Event.sendReturns {ι α : Type*} : Event ι α → Bool
  | .sent _ _ => true
  | _ => false

/-- The threads use one unbuffered channel. -/
def AlwaysRendezvous (toSend : ι → List α) (toReceive : ι → ℕ) : Prop :=
  Parties.AlwaysRendezvous step calls Event.sendReturns Event.take (start 0) toSend toReceive

/-- The queue of an unbuffered channel has one place. -/
theorem exists_send (t : ι) (item : α) : ∃ e₁ s₁ e₂ s₂,
    (start 0).step (.send t item) = some (e₁, s₁) ∧ s₁.step (.finish t) = some (e₂, s₂) ∧
      e₁.take = none ∧ e₂.take = none ∧ e₂.sendReturns = true := by
  have hphase : (start 0 : JavaThreads ι α).setPhase t (.sending item) t = .sending item :=
    Function.update_self _ _ _
  refine ⟨_, _, .sent t item,
    ⟨⟨1, [item]⟩, setPhase ⟨.new 0, (start 0).setPhase t (.sending item)⟩ t .idle⟩,
    rfl, ?_, rfl, rfl, rfl⟩
  simp only [step, hphase]
  rfl

theorem keeps_quiet {s s' : JavaThreads ι α} {e : Event ι α} (t : ι)
    (hquiet : ∀ u item, s.phase u ≠ .sending item)
    (h : s.step (.recv t) = some (e, s') ∨ s.step (.finish t) = some (e, s')) :
    (∀ u item, s'.phase u ≠ .sending item) ∧ e.sendReturns = false := by
  rcases h with h | h
  · simp only [step] at h
    split at h
    · cases h
      exact ⟨update_ne hquiet t nofun, rfl⟩
    · cases h
  · simp only [step] at h
    split at h
    · cases h
    · next item hsending => exact absurd hsending (hquiet t item)
    · split at h
      · cases h
        exact ⟨update_ne hquiet t nofun, rfl⟩
      · cases h

end JavaThreads

end Csp
