/-
# The words over a list of alphabets

`words [l₁, …, lₙ]` lists the words `a₁ … aₙ` with `aᵢ` from `lᵢ`, the first letter varying
slowest.

* `mem_words` : a word is listed if and only if it takes each letter from its alphabet;
* `length_words` : there are as many as the product of the sizes;
* `pairwise_words` : over increasing alphabets the list is increasing in lexicographic order.

The last lemmas are about loops over an alphabet: one that collects words, and loops whose body is
fallible.
-/
import Mathlib.Data.List.Forall2
import Mathlib.Algebra.BigOperators.Group.List.Basic

variable {α : Type*}

/-- The words that take their letters from the alphabets, in order. -/
def words : List (List α) → List (List α)
  | [] => [[]]
  | l :: ls => l.flatMap fun a => (words ls).map (a :: ·)

@[simp] theorem words_nil : words ([] : List (List α)) = [[]] := rfl

theorem words_cons (l : List α) (ls : List (List α)) :
    words (l :: ls) = l.flatMap fun a => (words ls).map (a :: ·) := rfl

/-- **What is listed.** -/
theorem mem_words {w : List α} {ls : List (List α)} :
    w ∈ words ls ↔ List.Forall₂ (· ∈ ·) w ls := by
  induction ls generalizing w with
  | nil => simp
  | cons l ls ih =>
      rw [words_cons, List.mem_flatMap]
      constructor
      · rintro ⟨a, ha, hw⟩
        obtain ⟨v, hv, rfl⟩ := List.mem_map.mp hw
        exact List.Forall₂.cons ha (ih.mp hv)
      · intro h
        cases h with
        | cons ha hv => exact ⟨_, ha, List.mem_map.mpr ⟨_, ih.mpr hv, rfl⟩⟩

/-- **How many are listed.** -/
theorem length_words (ls : List (List α)) :
    (words ls).length = (ls.map List.length).prod := by
  induction ls with
  | nil => rfl
  | cons l ls ih =>
      rw [words_cons, List.length_flatMap]
      simp [ih]

/-- **The order of the list**: words that differ in the first letter are in the order of these
letters, and the others in the order of the rests. -/
theorem pairwise_words [LT α] {ls : List (List α)} (h : ∀ l ∈ ls, l.Pairwise (· < ·)) :
    (words ls).Pairwise (· < ·) := by
  induction ls with
  | nil => simp
  | cons l ls ih =>
      rw [words_cons, List.pairwise_flatMap]
      constructor
      · intro a _
        rw [List.pairwise_map]
        refine (ih fun l hl => h l (List.mem_cons_of_mem _ hl)).imp fun hlt => ?_
        exact List.cons_lt_cons_iff.mpr (.inr ⟨rfl, hlt⟩)
      · refine (h l List.mem_cons_self).imp fun hlt v hv w hw => ?_
        obtain ⟨v', -, rfl⟩ := List.mem_map.mp hv
        obtain ⟨w', -, rfl⟩ := List.mem_map.mp hw
        exact List.cons_lt_cons_iff.mpr (.inl hlt)

/-- A loop that collects the words with a common beginning by their next letter. -/
theorem foldl_append_words (p : List α) (l : List α) (ws results : List (List α)) :
    l.foldl (fun results a => results ++ ws.map (p ++ [a] ++ ·)) results =
      results ++ (l.flatMap fun a => ws.map (a :: ·)).map (p ++ ·) := by
  rw [List.foldl_append_eq_append, ← List.flatMap_def, List.map_flatMap]
  simp [Function.comp_def]

/-! ## Loops with a fallible body -/

variable {σ ε : Type*} {f : σ → α → Except ε σ}

/-- A loop whose body raises, raises if it is run at all. -/
theorem foldlM_error {e : ε} {l : List α} (hl : l ≠ []) (h : ∀ s a, f s a = .error e) (s : σ) :
    l.foldlM f s = .error e := by
  obtain ⟨a, l, rfl⟩ := List.exists_cons_of_ne_nil hl
  rw [List.foldlM_cons, h]
  rfl

/-- A loop whose body does not raise is a loop that cannot. -/
theorem foldlM_ok {g : σ → α → σ} (h : ∀ s a, f s a = .ok (g s a)) (l : List α) (s : σ) :
    l.foldlM f s = .ok (l.foldl g s) := by
  have hf : f = fun s a => pure (g s a) := by
    funext s a
    exact h s a
  rw [hf, List.foldlM_pure]
  rfl
