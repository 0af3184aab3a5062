/-
# Round robin

The order in which a list of lists is read column by column: the first elements of the lists, then
the second elements of those that have one, and so on.

* `roundRobin_eq_append` : the first round, and then the rest of the lists;
* `roundRobin_filter` : empty lists do not count;
* `roundRobin_singleton_cons`, `roundRobin_pair` : a list of one element, and two lists.
-/
import Mathlib.Data.List.Basic
import Mathlib.Data.Nat.Notation

namespace RoundRobin

variable {α : Type*}

/-- The elements at position `k` of the lists that have one. -/
def column (ls : List (List α)) (k : ℕ) : List α := ls.filterMap fun l => l[k]?

/-- The length of the longest list. -/
def longest (ls : List (List α)) : ℕ := (ls.map List.length).foldr max 0

/-- The first `n` rounds. -/
def rounds (n : ℕ) (ls : List (List α)) : List α := (List.range n).flatMap (column ls)

/-- All rounds. -/
def roundRobin (ls : List (List α)) : List α := rounds (longest ls) ls

theorem length_le_longest {ls : List (List α)} {l : List α} (hl : l ∈ ls) :
    l.length ≤ longest ls := by
  induction ls with
  | nil => cases hl
  | cons k ls ih =>
      have hmax : longest (k :: ls) = max k.length (longest ls) := rfl
      rcases List.mem_cons.mp hl with rfl | hl
      · omega
      · have hle := ih hl
        omega

theorem longest_le {ls : List (List α)} {n : ℕ} (hn : ∀ l ∈ ls, l.length ≤ n) :
    longest ls ≤ n := by
  induction ls with
  | nil => exact Nat.zero_le n
  | cons k ls ih =>
      apply Nat.max_le.mpr
      constructor
      · exact hn k List.mem_cons_self
      · exact ih fun l hl => hn l (List.mem_cons_of_mem k hl)

/-- No list reaches the later columns. -/
theorem column_eq_nil {ls : List (List α)} {k : ℕ} (hk : ∀ l ∈ ls, l.length ≤ k) :
    column ls k = [] := by
  apply List.filterMap_eq_nil_iff.mpr
  intro l hl
  exact List.getElem?_eq_none (hk l hl)

theorem rounds_add (n m : ℕ) (ls : List (List α)) (hn : ∀ l ∈ ls, l.length ≤ n) :
    rounds (n + m) ls = rounds n ls := by
  induction m with
  | zero => rfl
  | succ m ih =>
      have hcolumn : column ls (n + m) = [] := by
        apply column_eq_nil
        intro l hl
        exact Nat.le_add_right_of_le (hn l hl)
      unfold rounds at ih ⊢
      rw [← Nat.add_assoc, List.range_succ, List.flatMap_append, ih]
      simp [hcolumn]

/-- As many rounds as the longest list is long are all of them. -/
theorem rounds_eq {n : ℕ} {ls : List (List α)} (hn : longest ls ≤ n) :
    rounds n ls = roundRobin ls := by
  obtain ⟨m, rfl⟩ := Nat.exists_eq_add_of_le hn
  exact rounds_add _ m ls fun l hl => length_le_longest hl

theorem column_succ (ls : List (List α)) (k : ℕ) :
    column ls (k + 1) = column (ls.map List.tail) k := by
  unfold column
  rw [List.filterMap_map]
  apply List.filterMap_congr
  intro l _
  cases l <;> rfl

theorem rounds_succ (n : ℕ) (ls : List (List α)) :
    rounds (n + 1) ls = column ls 0 ++ rounds n (ls.map List.tail) := by
  unfold rounds
  rw [List.range_succ_eq_map, List.flatMap_cons, List.flatMap_map]
  congr 2
  funext k
  exact column_succ ls k

theorem longest_map_tail (ls : List (List α)) : longest (ls.map List.tail) ≤ longest ls := by
  apply longest_le
  intro l hl
  obtain ⟨k, hk, rfl⟩ := List.mem_map.mp hl
  have hle := length_le_longest hk
  rw [List.length_tail]
  omega

/-- The first round, and then those of the rest of the lists. -/
theorem roundRobin_eq_append (ls : List (List α)) :
    roundRobin ls = column ls 0 ++ roundRobin (ls.map List.tail) := by
  rw [← rounds_eq (Nat.le_succ (longest ls)), rounds_succ, rounds_eq (longest_map_tail ls)]

/-- Empty lists do not count. -/
theorem roundRobin_filter (ls : List (List α)) :
    roundRobin (ls.filter fun l => !l.isEmpty) = roundRobin ls := by
  have hcolumn : ∀ k, column (ls.filter fun l => !l.isEmpty) k = column ls k := by
    intro k
    unfold column
    rw [List.filterMap_filter]
    apply List.filterMap_congr
    intro l _
    cases l <;> rfl
  have hlongest : longest (ls.filter fun l => !l.isEmpty) ≤ longest ls := by
    apply longest_le
    intro l hl
    exact length_le_longest (List.mem_of_mem_filter hl)
  rw [← rounds_eq hlongest]
  unfold roundRobin rounds
  rw [funext hcolumn]

theorem roundRobin_nil_cons (ls : List (List α)) : roundRobin ([] :: ls) = roundRobin ls := by
  rw [← roundRobin_filter, ← roundRobin_filter ls]
  rfl

/-- A list of one element is heard in the first round only. -/
theorem roundRobin_singleton_cons (x : α) (ls : List (List α)) :
    roundRobin ([x] :: ls) = x :: roundRobin ls := by
  rw [roundRobin_eq_append, roundRobin_eq_append ls]
  show x :: (column ls 0 ++ roundRobin ([] :: ls.map List.tail)) = _
  rw [roundRobin_nil_cons]

/-- One list is read as it is. -/
theorem roundRobin_singleton (l : List α) : roundRobin [l] = l := by
  induction l with
  | nil => rfl
  | cons x l ih =>
      rw [roundRobin_eq_append]
      show x :: roundRobin [l] = x :: l
      rw [ih]

/-- Two lists are read in turns. -/
theorem roundRobin_pair (x y : α) (xs ys : List α) :
    roundRobin [x :: xs, y :: ys] = x :: y :: roundRobin [xs, ys] :=
  roundRobin_eq_append _

end RoundRobin
