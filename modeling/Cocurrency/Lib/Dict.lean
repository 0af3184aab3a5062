/-
# Insertion-ordered dictionaries

A dictionary with the iteration order of a Python `dict`: a new key goes to the
end, an assignment to a key that is already present keeps its place.  Mathlib's
`AList` moves an inserted key to the front, so its entries come in another order;
everything else here follows the same pattern, with the absence of duplicate keys
carried as a field.

* `Dict.get`, `Dict.set`, `Dict.pop` : `d.get(k)`, `d[k] = v`, `d.pop(k, None)`;
* `Dict.get_eq_some_iff` : lookup is membership among the items.
-/
import Mathlib.Data.List.Basic
import Mathlib.Data.List.Nodup

/-! ## Association lists -/

namespace EntryList

variable {κ β : Type*} [DecidableEq κ]

/-- Assign `v` to `k` in an association list: in place when `k` is there, at the
end otherwise. -/
def assign (k : κ) (v : β) : List (κ × β) → List (κ × β)
  | [] => [(k, v)]
  | (j, w) :: rest => if j = k then (k, v) :: rest else (j, w) :: assign k v rest

/-- The first pair, or the others. -/
theorem lookup_cons_eq_ite (i j : κ) (w : β) (l : List (κ × β)) :
    ((i, w) :: l).lookup j = if j = i then some w else l.lookup j := by
  rw [List.lookup_cons]
  by_cases h : j = i
  · rw [if_pos h, beq_iff_eq.mpr h]
  · rw [if_neg h, beq_eq_false_iff_ne.mpr h]

/-- The key that is assigned, and the others. -/
theorem lookup_assign (l : List (κ × β)) (k j : κ) (v : β) :
    (assign k v l).lookup j = if j = k then some v else l.lookup j := by
  induction l with
  | nil => rw [assign, lookup_cons_eq_ite]
  | cons e rest ih =>
      obtain ⟨i, w⟩ := e
      by_cases hik : i = k
      · subst hik
        rw [assign, if_pos rfl, lookup_cons_eq_ite, lookup_cons_eq_ite]
        split_ifs <;> rfl
      · rw [assign, if_neg hik, lookup_cons_eq_ite, lookup_cons_eq_ite, ih]
        split_ifs with h₁ h₂
        · exact absurd (h₁.symm.trans h₂) hik
        · rfl
        · rfl
        · rfl

/-- The keys after an assignment. -/
theorem mem_keys_assign (l : List (κ × β)) (k j : κ) (v : β) :
    j ∈ (assign k v l).map Prod.fst ↔ j = k ∨ j ∈ l.map Prod.fst := by
  induction l with
  | nil => simp [assign]
  | cons e rest ih =>
      obtain ⟨i, w⟩ := e
      by_cases hik : i = k
      · subst hik
        simp [assign]
      · rw [assign, if_neg hik, List.map_cons, List.mem_cons, ih, List.map_cons, List.mem_cons]
        tauto

/-- No key is there twice after an assignment. -/
theorem nodup_keys_assign (l : List (κ × β)) (k : κ) (v : β)
    (h : (l.map Prod.fst).Nodup) : ((assign k v l).map Prod.fst).Nodup := by
  induction l with
  | nil => simp [assign]
  | cons e rest ih =>
      obtain ⟨i, w⟩ := e
      rw [List.map_cons, List.nodup_cons] at h
      by_cases hik : i = k
      · subst hik
        rw [assign, if_pos rfl, List.map_cons, List.nodup_cons]
        exact h
      · rw [assign, if_neg hik, List.map_cons, List.nodup_cons, mem_keys_assign]
        refine ⟨?_, ih h.2⟩
        rintro (h' | h')
        · exact hik h'
        · exact h.1 h'

/-- With no key twice, looking a key up is membership of its entry. -/
theorem lookup_eq_some_iff_mem (l : List (κ × β)) (h : (l.map Prod.fst).Nodup) (k : κ) (v : β) :
    l.lookup k = some v ↔ (k, v) ∈ l := by
  induction l with
  | nil => simp
  | cons e rest ih =>
      obtain ⟨i, w⟩ := e
      rw [List.map_cons, List.nodup_cons] at h
      rw [lookup_cons_eq_ite, List.mem_cons, Prod.mk.injEq]
      by_cases hki : k = i
      · subst hki
        have hnot : (k, v) ∉ rest := fun hm => h.1 (List.mem_map.mpr ⟨(k, v), hm, rfl⟩)
        simp [hnot, eq_comm]
      · rw [if_neg hki, ih h.2]
        simp [hki]

end EntryList

/-! ## Dictionaries -/

/-- A dictionary: its items in iteration order, no key twice. -/
structure Dict (κ β : Type*) where
  items : List (κ × β)
  nodup : (items.map Prod.fst).Nodup

namespace Dict

variable {κ β : Type*}

/-- The empty dictionary `{}`. -/
def empty : Dict κ β := ⟨[], List.nodup_nil⟩

variable [DecidableEq κ]

/-- `d.get(k)`. -/
def get (d : Dict κ β) (k : κ) : Option β := d.items.lookup k

/-- `d[k] = v`. -/
def set (d : Dict κ β) (k : κ) (v : β) : Dict κ β :=
  ⟨EntryList.assign k v d.items, EntryList.nodup_keys_assign d.items k v d.nodup⟩

/-- `d.pop(k, None)`, the dictionary it leaves. -/
def pop (d : Dict κ β) (k : κ) : Dict κ β :=
  ⟨d.items.filter (fun e => decide (e.1 ≠ k)), d.nodup.sublist (List.filter_sublist.map Prod.fst)⟩

/-- `d.setdefault(k, v)`, the dictionary it leaves. -/
def setDefault (d : Dict κ β) (k : κ) (v : β) : Dict κ β :=
  if (d.get k).isSome then d else d.set k v

/-- Nothing is in the empty dictionary. -/
@[simp] theorem get_empty (k : κ) : (empty : Dict κ β).get k = none := rfl

/-- Lookup is membership among the items. -/
theorem get_eq_some_iff (d : Dict κ β) (k : κ) (v : β) : d.get k = some v ↔ (k, v) ∈ d.items :=
  EntryList.lookup_eq_some_iff_mem d.items d.nodup k v

/-- The key that is set, and the others. -/
theorem get_set (d : Dict κ β) (k j : κ) (v : β) :
    (d.set k v).get j = if j = k then some v else d.get j :=
  EntryList.lookup_assign d.items k j v

@[simp] theorem get_set_self (d : Dict κ β) (k : κ) (v : β) : (d.set k v).get k = some v := by
  rw [get_set, if_pos rfl]

theorem get_set_of_ne (d : Dict κ β) {k j : κ} (v : β) (h : j ≠ k) :
    (d.set k v).get j = d.get j := by
  rw [get_set, if_neg h]

/-- The key that is removed, and the others. -/
theorem get_pop (d : Dict κ β) (k j : κ) :
    (d.pop k).get j = if j = k then none else d.get j := by
  ext v
  rw [get_eq_some_iff]
  by_cases h : j = k
  · simp [pop, h]
  · simp [pop, h, ← get_eq_some_iff]

@[simp] theorem get_pop_self (d : Dict κ β) (k : κ) : (d.pop k).get k = none := by
  rw [get_pop, if_pos rfl]

theorem get_pop_of_ne (d : Dict κ β) {k j : κ} (h : j ≠ k) : (d.pop k).get j = d.get j := by
  rw [get_pop, if_neg h]

/-- `setdefault` on a key that is present changes nothing. -/
theorem setDefault_of_get (d : Dict κ β) {k : κ} {v w : β} (h : d.get k = some w) :
    d.setDefault k v = d := by
  rw [setDefault, h]
  rfl

end Dict
