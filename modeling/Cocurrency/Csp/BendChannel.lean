/-
# The channel of the Bend port (`bend-lang/csp/channel_demo.bend`)

`try_send` and `try_recv` on a list that the caller threads through, next to `try_send` and
`try_recv` of the Python `Channel` without a bound.

`append([item], ch)` puts an item at the front of the list, and `try_recv` takes from the front:
the list is a stack, and Python's buffer is a queue.  So the two give the same results exactly on
the sequences in which each receive that finds an item closes, as a bracket, the send of the item
whose turn it is (`results_agree_iff`).
-/
import Cocurrency.Csp.Channel
import Cocurrency.Lib.Machine
import Cocurrency.Lib.StackQueue

namespace Csp.Bend

open StackQueue

/-- The result of one operation: the sent flag, or the received item, if one was found. -/
inductive Result where
  | sent (ok : Bool)
  | received (item : Option ℤ)
  deriving DecidableEq, Repr

/-- `append`. -/
def append : List ℤ → List ℤ → List ℤ
  | [], ys => ys
  | x :: xs, ys => x :: append xs ys

/-- `try_send`: the channel and 1. -/
def trySend (ch : List ℤ) (item : ℤ) : List ℤ × ℕ := (append [item] ch, 1)

/-- `try_recv`: the item, the channel and 1, or 0 for the item and for the flag. -/
def tryRecv (ch : List ℤ) : ℤ × List ℤ × ℕ :=
  match ch with
  | [] => (0, ch, 0)
  | item :: rest => (item, rest, 1)

/-- One operation of the Bend channel.  Where the flag says that nothing was found, the item is
none. -/
def bendStep (ch : List ℤ) : Op ℤ → Result × List ℤ
  | .put item =>
      let (ch, ok) := trySend ch item
      (.sent (ok = 1), ch)
  | .take =>
      let (item, ch, found) := tryRecv ch
      (.received (if found = 1 then some item else none), ch)

/-- One operation of the Python channel. -/
def pythonStep (ch : Channel ℤ) : Op ℤ → Result × Channel ℤ
  | .put item =>
      let (r, ch) := ch.trySend item
      (.sent (r = .accepted), ch)
  | .take =>
      let (item, ch) := ch.tryRecv
      (.received item, ch)

/-- The results of the Bend functions on an empty channel. -/
def bendResults (ops : List (Op ℤ)) : List Result := Machine.results bendStep [] ops

/-- The results of Python's on `Channel(maxsize=0)`. -/
def pythonResults (ops : List (Op ℤ)) : List Result := Machine.results pythonStep (.new 0) ops

/-! ## A stack and a queue -/

/-- The Bend channel is a stack. -/
theorem after_bendStep (ch : List ℤ) (ops : List (Op ℤ)) :
    Machine.after bendStep ch ops = stackFrom ch ops := by
  induction ops generalizing ch with
  | nil => rfl
  | cons op ops ih =>
      unfold Machine.after
      rw [ih]
      cases op with
      | put item => rfl
      | take => cases ch <;> rfl

/-- The Python channel is a queue, without a bound and open. -/
theorem after_pythonStep (buf : List ℤ) (ops : List (Op ℤ)) :
    Machine.after pythonStep ⟨0, buf, false⟩ ops = ⟨0, queueFrom buf ops, false⟩ := by
  induction ops generalizing buf with
  | nil => rfl
  | cons op ops ih =>
      unfold Machine.after
      cases op with
      | put item => exact ih (buf ++ [item])
      | take =>
          cases buf with
          | nil => exact ih []
          | cons item rest => exact ih rest

theorem bendStep_put (ch : List ℤ) (item : ℤ) : (bendStep ch (.put item)).1 = .sent true := rfl

theorem bendStep_take (ch : List ℤ) : (bendStep ch .take).1 = .received ch.head? := by
  cases ch <;> rfl

theorem pythonStep_put (buf : List ℤ) (item : ℤ) :
    (pythonStep ⟨0, buf, false⟩ (.put item)).1 = .sent true := rfl

theorem pythonStep_take (buf : List ℤ) :
    (pythonStep ⟨0, buf, false⟩ .take).1 = .received buf.head? := by
  cases buf <;> rfl

/-- **When the two channels give the same results.** -/
theorem results_agree_iff (ops : List (Op ℤ)) :
    bendResults ops = pythonResults ops ↔ InTurn ops := by
  unfold bendResults pythonResults Channel.new
  rw [Machine.results_eq_iff, inTurn_iff]
  constructor
  · intro h before after hops
    have hres := h before .take after hops
    rw [after_bendStep, after_pythonStep, bendStep_take, pythonStep_take] at hres
    exact Result.received.inj hres
  · intro h before op after hops
    rw [after_bendStep, after_pythonStep]
    cases op with
    | put item => rw [bendStep_put, pythonStep_put]
    | take =>
        rw [bendStep_take, pythonStep_take]
        exact congrArg Result.received (h before after hops)

/-- After two sends a receive gives the second item, in Python the first. -/
theorem bendResults_two_sends :
    bendResults [.put 1, .put 2, .take] ≠ pythonResults [.put 1, .put 2, .take] := by
  decide

end Csp.Bend
