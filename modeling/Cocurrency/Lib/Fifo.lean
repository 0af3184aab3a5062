/-
# Queues along a run

An event of a system may put an item into a queue, take one out of it, or both.  When every
step balances, that is, the queue and what is put make what is taken and the queue after it,
the same holds of a whole run (`Run.fifo`): items come out in the order they went in, each at
most once, and those that have not come out are in the queue.

* `Fifo.Balanced` : one step;
* `Run.fifo` : a run.
-/
import Cocurrency.Lib.Run

namespace Fifo

variable {α : Type*}

/-- The queue `buf`, into which `put` goes and out of which `take` comes, becomes `buf'`. -/
def Balanced (put take : Option α) (buf buf' : List α) : Prop :=
  buf ++ put.toList = take.toList ++ buf'

theorem Balanced.unchanged (buf : List α) : Balanced none none buf buf := by
  simp [Balanced]

theorem Balanced.put (a : α) (buf : List α) : Balanced (some a) none buf (buf ++ [a]) := rfl

theorem Balanced.take (a : α) (buf : List α) : Balanced none (some a) (a :: buf) buf := by
  simp [Balanced]

end Fifo

namespace Run

variable {σ act ε α : Type*} {step : σ → act → Option (ε × σ)} {ok : σ → act → Prop} {s₀ s : σ}
  {h : List ε}

/-- **First in, first out.**  If every step of a run balances, so does the run. -/
theorem fifo (put take : ε → Option α) (buf : σ → List α)
    (hstep : ∀ h s a e s', Run step ok s₀ h s → ok s a → step s a = some (e, s') →
      Fifo.Balanced (put e) (take e) (buf s) (buf s'))
    (hr : Run step ok s₀ h s) :
    buf s₀ ++ h.filterMap put = h.filterMap take ++ buf s := by
  induction hr with
  | nil => simp
  | @snoc h s s' a e hr hok hs ih =>
      have hone : buf s ++ (put e).toList = (take e).toList ++ buf s' := hstep h s a e s' hr hok hs
      have hputs : (h ++ [e]).filterMap put = h.filterMap put ++ (put e).toList := by
        rw [List.filterMap_append]
        cases hput : put e <;> simp [hput]
      have htakes : (h ++ [e]).filterMap take = h.filterMap take ++ (take e).toList := by
        rw [List.filterMap_append]
        cases htake : take e <;> simp [htake]
      calc buf s₀ ++ (h ++ [e]).filterMap put
          = (buf s₀ ++ h.filterMap put) ++ (put e).toList := by rw [hputs, List.append_assoc]
        _ = h.filterMap take ++ (buf s ++ (put e).toList) := by rw [ih, List.append_assoc]
        _ = (h ++ [e]).filterMap take ++ buf s' := by rw [hone, htakes, List.append_assoc]

end Run
