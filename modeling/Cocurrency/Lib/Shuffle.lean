/-
# Shuffles of lists

A list is a shuffle of others if it takes one element after the other from the front of one of
them.  For two lists this is `Interleaving`, for a list of lists `Merge`; the order in which the
lists are merged does not matter for what follows.

* `places` : the places of the elements of a list of lists;
* `IsShuffle` : each position of a list holds the element at one place, each place is used once,
  and the elements of each list keep their order;
* `Merge.isShuffle` : what is merged is a shuffle;
* `IsShuffle.perm` : a shuffle has the elements of the lists, each as often as they have it.
-/
import Mathlib.Data.List.GetD
import Mathlib.Data.List.Nodup
import Mathlib.Data.List.Perm.Basic
import Mathlib.Data.Option.Basic

namespace Shuffle

variable {α β : Type*}

/-! ## Two lists -/

/-- `Interleaving xs ys out` : the elements of `xs` and `ys` in turns of any length. -/
inductive Interleaving : List α → List α → List α → Prop
  | nil : Interleaving [] [] []
  | left (x : α) {xs ys out : List α} : Interleaving xs ys out →
      Interleaving (x :: xs) ys (x :: out)
  | right (y : α) {xs ys out : List α} : Interleaving xs ys out →
      Interleaving xs (y :: ys) (y :: out)

namespace Interleaving

variable {xs ys out : List α}

/-- It does not matter which list comes first. -/
theorem symm (h : Interleaving xs ys out) : Interleaving ys xs out := by
  induction h with
  | nil => exact .nil
  | left x _ ih => exact .right x ih
  | right y _ ih => exact .left y ih

theorem nil_left (ys : List α) : Interleaving [] ys ys := by
  induction ys with
  | nil => exact .nil
  | cons y ys ih => exact .right y ih

/-- One list after the other. -/
theorem append (xs ys : List α) : Interleaving xs ys (xs ++ ys) := by
  induction xs with
  | nil => exact nil_left ys
  | cons x xs ih => exact .left x ih

/-- An interleaving has the elements of both lists. -/
theorem perm (h : Interleaving xs ys out) : out.Perm (xs ++ ys) := by
  induction h with
  | nil => exact .nil
  | left x _ ih => exact ih.cons x
  | right y _ ih => exact (ih.cons y).trans List.perm_middle.symm

/-- An element comes from one of them. -/
theorem mem_iff (h : Interleaving xs ys out) {a : α} : a ∈ out ↔ a ∈ xs ∨ a ∈ ys := by
  rw [h.perm.mem_iff, List.mem_append]

/-- A relation that holds in order within the lists, and in both orders between them, holds in
order. -/
theorem pairwise {r : α → α → Prop} (h : Interleaving xs ys out) (hxs : xs.Pairwise r)
    (hys : ys.Pairwise r) (hcross : ∀ x ∈ xs, ∀ y ∈ ys, r x y ∧ r y x) : out.Pairwise r := by
  induction h with
  | nil => exact .nil
  | @left x xs ys out h ih =>
      obtain ⟨hx, hxs⟩ := List.pairwise_cons.mp hxs
      apply List.pairwise_cons.mpr
      constructor
      · intro a ha
        rcases h.mem_iff.mp ha with ha | ha
        · exact hx a ha
        · exact (hcross x List.mem_cons_self a ha).1
      · exact ih hxs hys fun a ha => hcross a (List.mem_cons_of_mem x ha)
  | @right y xs ys out h ih =>
      obtain ⟨hy, hys⟩ := List.pairwise_cons.mp hys
      apply List.pairwise_cons.mpr
      constructor
      · intro a ha
        rcases h.mem_iff.mp ha with ha | ha
        · exact (hcross a ha y List.mem_cons_self).2
        · exact hy a ha
      · exact ih hxs hys fun a ha b hb => hcross a ha b (List.mem_cons_of_mem y hb)

/-- An interleaving, element by element. -/
theorem map (f : α → β) (h : Interleaving xs ys out) :
    Interleaving (xs.map f) (ys.map f) (out.map f) := by
  induction h with
  | nil => exact .nil
  | left x _ ih => exact .left (f x) ih
  | right y _ ih => exact .right (f y) ih

/-- What has been merged from images is the image of something merged. -/
theorem exists_map {f : α → β} {us vs out : List β} (h : Interleaving us vs out) (xs ys : List α)
    (hxs : xs.map f = us) (hys : ys.map f = vs) : ∃ ws, Interleaving xs ys ws ∧ ws.map f = out := by
  induction h generalizing xs ys with
  | nil =>
      rw [List.map_eq_nil_iff.mp hxs, List.map_eq_nil_iff.mp hys]
      exact ⟨[], .nil, rfl⟩
  | left u _ ih =>
      obtain ⟨x, xs, rfl, rfl, hrest⟩ := List.map_eq_cons_iff.mp hxs
      obtain ⟨ws, hws, hmap⟩ := ih xs ys hrest hys
      exact ⟨x :: ws, .left x hws, by rw [List.map_cons, hmap]⟩
  | right v _ ih =>
      obtain ⟨y, ys, rfl, rfl, hrest⟩ := List.map_eq_cons_iff.mp hys
      obtain ⟨ws, hws, hmap⟩ := ih xs ys hxs hrest
      exact ⟨y :: ws, .right y hws, by rw [List.map_cons, hmap]⟩

end Interleaving

/-! ## Any number of lists -/

/-- `Merge ls out` : the last lists merged, and the others merged into them one by one. -/
inductive Merge : List (List α) → List α → Prop
  | nil : Merge [] []
  | cons {l : List α} {ls : List (List α)} {out out' : List α} : Merge ls out →
      Interleaving l out out' → Merge (l :: ls) out'

namespace Merge

variable {ls : List (List α)} {out : List α}

/-- Two lists. -/
theorem pair {xs ys : List α} (h : Interleaving xs ys out) : Merge [xs, ys] out :=
  .cons (.cons .nil (Interleaving.nil_left ys).symm) h

/-- A merge has the elements of all lists. -/
theorem perm (h : Merge ls out) : out.Perm ls.flatten := by
  induction h with
  | nil => exact .nil
  | cons _ hinter ih => exact hinter.perm.trans (ih.append_left _)

/-- A relation that holds in order within each list, and in both orders between any two, holds in
order. -/
theorem pairwise {r : α → α → Prop} (h : Merge ls out) (hin : ∀ l ∈ ls, l.Pairwise r)
    (hcross : ls.Pairwise fun l₁ l₂ => ∀ x ∈ l₁, ∀ y ∈ l₂, r x y ∧ r y x) : out.Pairwise r := by
  induction h with
  | nil => exact .nil
  | @cons l ls out out' h hinter ih =>
      obtain ⟨hl, hcross⟩ := List.pairwise_cons.mp hcross
      apply hinter.pairwise (hin l List.mem_cons_self)
      · exact ih (fun k hk => hin k (List.mem_cons_of_mem l hk)) hcross
      · intro x hx y hy
        obtain ⟨k, hk, hyk⟩ := List.mem_flatten.mp (h.perm.mem_iff.mp hy)
        exact hl k hk x hx y hyk

/-- A merge, element by element. -/
theorem map (f : α → β) (h : Merge ls out) : Merge (ls.map (List.map f)) (out.map f) := by
  induction h with
  | nil => exact .nil
  | cons _ hinter ih => exact .cons ih (hinter.map f)

/-- What has been merged from images is the image of something merged. -/
theorem exists_map {f : α → β} {ks : List (List β)} {out : List β} (h : Merge ks out)
    (ls : List (List α)) (hls : ls.map (List.map f) = ks) : ∃ ws, Merge ls ws ∧ ws.map f = out := by
  induction h generalizing ls with
  | nil =>
      rw [List.map_eq_nil_iff.mp hls]
      exact ⟨[], .nil, rfl⟩
  | cons _ hinter ih =>
      obtain ⟨l, ls, rfl, hl, hrest⟩ := List.map_eq_cons_iff.mp hls
      obtain ⟨vs, hvs, hmap⟩ := ih ls hrest
      obtain ⟨ws, hws, hmap'⟩ := hinter.exists_map l vs hl hmap
      exact ⟨ws, .cons hvs hws, hmap'⟩

end Merge

/-! ## Places -/

/-- The places of a list of lists: the number of a list and a position in it, list by list. -/
def places (ls : List (List α)) : List (List (ℕ × ℕ)) :=
  ls.mapIdx fun i l => (List.range l.length).map fun j => (i, j)

/-- The element at a place. -/
def elemAt (ls : List (List α)) (a : ℕ × ℕ) : Option α := (ls.getD a.1 [])[a.2]?

/-- As many places as elements. -/
theorem length_places (ls : List (List α)) :
    (places ls).map List.length = ls.map List.length := by
  apply List.ext_getElem
  · simp [places]
  · intro i h₁ h₂
    simp [places]

/-- The places of one list. -/
theorem mem_places {ls : List (List α)} {l : List (ℕ × ℕ)} (hl : l ∈ places ls) :
    ∃ i k, ls[i]? = some k ∧ l = (List.range k.length).map fun j => (i, j) := by
  obtain ⟨i, hi, rfl⟩ := List.mem_mapIdx.mp hl
  exact ⟨i, ls[i], List.getElem?_eq_getElem hi, rfl⟩

/-- The elements at the places. -/
theorem elemAt_places (ls : List (List α)) :
    (places ls).map (List.map (elemAt ls)) = ls.map (List.map some) := by
  apply List.ext_getElem
  · simp [places]
  · intro i h₁ h₂
    have hi : i < ls.length := by simpa using h₂
    apply List.ext_getElem
    · simp [places]
    · intro j h₃ h₄
      simp [places, elemAt, hi]

/-- A place with an element is one of the places. -/
theorem mem_flatten_places {ls : List (List α)} {a : ℕ × ℕ} (ha : elemAt ls a ≠ none) :
    a ∈ (places ls).flatten := by
  obtain ⟨i, j⟩ := a
  unfold elemAt at ha
  by_cases hi : i < ls.length
  · rw [List.getD_eq_getElem _ _ hi] at ha
    have hj : j < ls[i].length := by
      by_contra hj
      exact ha (List.getElem?_eq_none (Nat.le_of_not_lt hj))
    apply List.mem_flatten.mpr
    refine ⟨_, List.mem_mapIdx.mpr ⟨i, hi, rfl⟩, ?_⟩
    exact List.mem_map.mpr ⟨j, List.mem_range.mpr hj, rfl⟩
  · rw [List.getD_eq_default _ _ (Nat.le_of_not_lt hi)] at ha
    exact absurd rfl ha

/-- Places of different lists are different. -/
theorem places_cross (ls : List (List α)) :
    (places ls).Pairwise fun l₁ l₂ => ∀ x ∈ l₁, ∀ y ∈ l₂, x.1 ≠ y.1 := by
  apply List.pairwise_iff_getElem.mpr
  intro i k hi hk hlt x hx y hy
  simp only [places, List.getElem_mapIdx, List.mem_map] at hx hy
  obtain ⟨_, -, rfl⟩ := hx
  obtain ⟨_, -, rfl⟩ := hy
  exact Nat.ne_of_lt hlt

/-- The places of one list are in order. -/
theorem places_ordered {ls : List (List α)} {l : List (ℕ × ℕ)} (hl : l ∈ places ls) :
    l.Pairwise fun a b => a.1 = b.1 → a.2 < b.2 := by
  obtain ⟨i, k, -, rfl⟩ := mem_places hl
  apply List.pairwise_map.mpr
  apply List.pairwise_lt_range.imp
  intro a b hlt _
  exact hlt

/-! ## Shuffles -/

/-- `src` says of each position of `out` which place of `ls` its element comes from: an element of
that value; no place twice; each place once; and places of one list in their order. -/
structure Sources (ls : List (List α)) (out : List α) (src : List (ℕ × ℕ)) : Prop where
  elem : src.map (elemAt ls) = out.map some
  nodup : src.Nodup
  onto : ∀ a, elemAt ls a ≠ none → a ∈ src
  ordered : src.Pairwise fun a b => a.1 = b.1 → a.2 < b.2

/-- `out` is a shuffle of the lists. -/
def IsShuffle (ls : List (List α)) (out : List α) : Prop := ∃ src, Sources ls out src

/-- In an order that is strict within each list no place comes twice. -/
theorem nodup_of_ordered {src : List (ℕ × ℕ)}
    (h : src.Pairwise fun a b => a.1 = b.1 → a.2 < b.2) : src.Nodup := by
  apply h.imp
  rintro a b hlt rfl
  exact absurd (hlt rfl) (Nat.lt_irrefl _)

/-- The places, merged. -/
theorem ordered_of_merge {ls : List (List α)} {src : List (ℕ × ℕ)} (h : Merge (places ls) src) :
    src.Pairwise fun a b => a.1 = b.1 → a.2 < b.2 := by
  apply h.pairwise fun l hl => places_ordered hl
  apply (places_cross ls).imp
  intro l₁ l₂ hne x hx y hy
  exact ⟨fun heq => absurd heq (hne x hx y hy), fun heq => absurd heq.symm (hne x hx y hy)⟩

/-- No place is there twice. -/
theorem nodup_flatten_places (ls : List (List α)) : (places ls).flatten.Nodup := by
  have hmerge : ∀ ks : List (List (ℕ × ℕ)), Merge ks ks.flatten := by
    intro ks
    induction ks with
    | nil => exact .nil
    | cons k ks ih => exact .cons ih (Interleaving.append k ks.flatten)
  exact nodup_of_ordered (ordered_of_merge (hmerge (places ls)))

/-- **What is merged is a shuffle.** -/
theorem Merge.isShuffle {ls : List (List α)} {out : List α} (h : Merge ls out) :
    IsShuffle ls out := by
  obtain ⟨src, hsrc, hmap⟩ := (h.map some).exists_map (places ls) (elemAt_places ls)
  have hordered := ordered_of_merge hsrc
  refine ⟨src, hmap, nodup_of_ordered hordered, fun a ha => ?_, hordered⟩
  exact hsrc.perm.mem_iff.mpr (mem_flatten_places ha)

/-- A shuffle has the elements of its lists. -/
theorem IsShuffle.perm {ls : List (List α)} {out : List α} (h : IsShuffle ls out) :
    out.Perm ls.flatten := by
  obtain ⟨src, hsrc⟩ := h
  -- both the sources and the places are all places, each once
  have hplaces : src.Perm (places ls).flatten := by
    apply (List.perm_ext_iff_of_nodup hsrc.nodup (nodup_flatten_places ls)).mpr
    intro a
    constructor
    · intro ha
      apply mem_flatten_places
      have helem := List.mem_map_of_mem (f := elemAt ls) ha
      rw [hsrc.elem] at helem
      obtain ⟨x, -, hx⟩ := List.mem_map.mp helem
      rw [← hx]
      exact Option.some_ne_none x
    · intro ha
      apply hsrc.onto
      obtain ⟨l, hl, hal⟩ := List.mem_flatten.mp ha
      have helem : elemAt ls a ∈ ((places ls).map (List.map (elemAt ls))).flatten :=
        List.mem_flatten.mpr ⟨_, List.mem_map_of_mem hl, List.mem_map_of_mem hal⟩
      rw [elemAt_places, ← List.map_flatten] at helem
      obtain ⟨x, -, hx⟩ := List.mem_map.mp helem
      rw [← hx]
      exact Option.some_ne_none x
  have hmap := hplaces.map (elemAt ls)
  rw [hsrc.elem, List.map_flatten, elemAt_places, ← List.map_flatten] at hmap
  exact (List.map_perm_map_iff (Option.some_injective α)).mp hmap

end Shuffle
